import Mathlib.Algebra.BigOperators.Group.List.Basic
import Mathlib.Algebra.GroupWithZero.Nat
import Mathlib.Data.List.Nodup
import Mathlib.Data.String.Basic
import Parlance.Proofs.Operation

/-!
# The Registry as One List

The rules of a session stand in two places: those with a key are filed under it,
those that are polled are kept apart. Both places together hold no more and no less
than one list of rules. This list is what the owner of the session has in mind:
a script replaces it, a scene takes the place of the scene before, and a tag takes
rules out. No statement changes it.

## Main definitions

* `Session.filed`: Rules as they are filed: no rules are not filed.
* `Session.Frame.Files`: The registry holds the rules of a list: under each key those with the
  key, apart those that are polled, all in the order of the list, and no key twice or without
  rules.

## Theorems

* `Session.sum_length_bucket`: Every rule is in the bucket of one of the keys, or polled.
* `Session.registry_files`: The registry of a session holds the rules of one list: a script
  replaces them, a scene takes the place of the scene before, a tag takes rules out, and all else
  leaves them.
-/

namespace Parlance
open Dict Run

def Event.isPolled : Event → Bool
  | .condition _ _ _ _ => true
  | _ => false

theorem Event.key?_eq_none_iff (e : Event) : e.key? = none ↔ e.isPolled = true := by
  cases e <;> simp [key?, isPolled]

namespace Session

def bucket (key : String) (rules : List Rule) : List Rule :=
  rules.filter fun r => r.event.key? == some key

def polled (rules : List Rule) : List Rule := rules.filter (·.event.isPolled)

/-- Rules as they are filed: no rules are not filed. -/
def filed : List Rule → Option (List Rule)
  | [] => none
  | rs => some rs

/-- The registry holds the rules of a list: under each key those with the key, apart
    those that are polled, all in the order of the list, and no key twice or without
    rules. -/
structure Frame.Files (f : Frame) (rules : List Rule) : Prop where
  get? : ∀ key, f.eventRules.get? key = filed (bucket key rules)
  nodup : f.eventRules.keys.Nodup
  polled : f.conditionRules = Session.polled rules

instance {rules : List Rule} : Regime.Watchable (·.Files rules) where
  call _ h _ := ⟨h.get?, h.nodup, h.polled⟩
  module _ _ _ h := ⟨h.get?, h.nodup, h.polled⟩
  request _ _ h := ⟨h.get?, h.nodup, h.polled⟩

def Operation.rules (there : List Rule) : Operation → List Rule
  | .load source => changedBy there Program.rules (Program.ofSource source).program
  | .loadScene source => changedBy there
      (fun p => there.filter (fun r => r.tag != some sceneTag) ++
        p.rules.map fun r => { r with tag := some sceneTag })
      (Program.ofSource source).program
  | .unloadScene => there.filter fun r => r.tag != some sceneTag
  | .removeRules tag => there.filter fun r => r.tag != tag
  | _ => there

/-! ### One change of the registry -/

variable {s : Session} {rules : List Rule}

theorem getD_filed (rs : List Rule) : (filed rs).getD [] = rs := by
  cases rs <;> rfl

theorem filed_concat (rs : List Rule) (r : Rule) : filed (rs ++ [r]) = some (rs ++ [r]) := by
  cases rs <;> rfl

theorem bucket_concat (key : String) (r : Rule) : bucket key (rules ++ [r]) =
    if r.event.key? = some key then bucket key rules ++ [r] else bucket key rules := by
  rw [bucket, List.filter_append, ← bucket]
  split <;> simp [*]

theorem polled_concat (r : Rule) : polled (rules ++ [r]) =
    if r.event.key? = none then polled rules ++ [r] else polled rules := by
  have hpolled := Event.key?_eq_none_iff r.event
  rw [polled, List.filter_append, ← polled]
  split <;> simp_all

namespace Frame.Files

theorem addRule (h : s.frame.Files rules) (r : Rule) :
    (s.addRule r).frame.Files (rules ++ [r]) := by
  have hget : ∀ key, s.eventRules.get? key = filed (bucket key rules) := h.get?
  have hpolled : s.conditionRules = Session.polled rules := h.polled
  unfold Session.addRule
  cases hkey : r.event.key? with
  | none =>
    -- The rule is polled, and no bucket changes.
    refine ⟨fun key => ?_, h.nodup, ?_⟩
    · rw [bucket_concat, hkey, if_neg nofun]
      exact hget key
    · rw [polled_concat, if_pos hkey, ← hpolled]
      rfl
  | some own =>
    -- The rule goes to the end of its own bucket, and no other one changes.
    refine ⟨fun key => ?_, distinct _, ?_⟩
    · change (s.eventRules.insert own ((s.eventRules.get? own).getD [] ++ [r])).get? key = _
      rw [bucket_concat, hkey, hget own, getD_filed]
      by_cases hk : key = own
      · rw [hk, if_pos rfl, get?_insert_self, filed_concat]
      · rw [if_neg fun h => hk (Option.some.inj h).symm, get?_insert_of_ne _ hk, hget]
    · rw [polled_concat, hkey, if_neg nofun, ← hpolled]
      rfl

theorem foldl_addRule (h : s.frame.Files rules) (f : Rule → Rule) (rs : List Rule) :
    (rs.foldl (fun s r => s.addRule (f r)) s).frame.Files (rules ++ rs.map f) := by
  induction rs generalizing s rules with
  | nil => simpa using h
  | cons r rest ih => simpa using ih (h.addRule (f r))

theorem removeRules (h : s.frame.Files rules) (tag : Option String) :
    (s.removeRules tag).frame.Files (rules.filter fun r => r.tag != tag) := by
  have hget : ∀ key, s.eventRules.get? key = filed (bucket key rules) := h.get?
  have hpolled : s.conditionRules = Session.polled rules := h.polled
  refine ⟨fun key => ?_, distinct _, ?_⟩
  · change (untagged tag s.eventRules).get? key = _
    have hcomm : bucket key (rules.filter fun r => r.tag != tag) =
        (bucket key rules).filter fun r => r.tag != tag := List.filter_comm ..
    rw [untagged, get?_filter, get?_map, hget, hcomm]
    -- A key without rules had none before, or loses the last one now.
    cases bucket key rules with
    | nil => rfl
    | cons r rest =>
      change (some ((r :: rest).filter fun r => r.tag != tag)).filter _ = _
      cases (r :: rest).filter fun r => r.tag != tag <;> rfl
  · change s.conditionRules.filter (fun r => r.tag != tag) = _
    rw [hpolled]
    exact List.filter_comm ..

theorem settled (h : s.frame.Files rules) (op : Operation) :
    (op.settled s).frame.Files (op.rules rules) := by
  cases op with
  | load source =>
    rw [Operation.settled, Operation.rules]
    cases (Program.ofSource source).program with
    | error d => exact h
    | ok p =>
      -- A script replaces all rules, so they are filed from an empty registry on.
      have hempty : Frame.Files { s with
          program := some p, eventRules := ∅, conditionRules := [] : Session }.frame [] :=
        ⟨fun _ => rfl, List.nodup_nil, rfl⟩
      have hfiles := hempty.foldl_addRule id p.rules
      rwa [List.map_id, List.nil_append] at hfiles
  | loadScene source =>
    rw [Operation.settled, Operation.rules]
    cases (Program.ofSource source).program with
    | error d => exact h
    | ok p => exact (h.removeRules (some sceneTag)).foldl_addRule _ p.rules
  | unloadScene => exact h.removeRules (some sceneTag)
  | removeRules tag => exact h.removeRules tag
  | _ => exact h

theorem afterAll (n : Nat) (h : s.frame.Files rules) (ops : List Operation) :
    (Operation.afterAll (.ofDepth n) s ops).frame.Files (ops.foldl Operation.rules rules) := by
  induction ops generalizing s rules with
  | nil => exact h
  | cons op rest ih =>
    have hafter : (op.after (.ofDepth n) s).frame.Files (op.rules rules) :=
      op.frame_after n s ▸ h.settled op
    exact ih hafter

end Frame.Files

/-! ### Counting -/

/-- Every rule is in the bucket of one of the keys, or polled. By induction on the
    rules: the next one adds to one bucket, as the keys are distinct. -/
theorem sum_length_bucket {keys : List String} (hkeys : keys.Nodup)
    (hrules : ∀ r ∈ rules, ∀ key, r.event.key? = some key → key ∈ keys) :
    (keys.map fun key => (bucket key rules).length).sum + (polled rules).length = rules.length := by
  induction rules with
  | nil => simp [bucket, polled]
  | cons r rest ih =>
    have hrest := ih fun r' hr' => hrules r' (List.mem_cons_of_mem r hr')
    have hbucket (key : String) : (bucket key (r :: rest)).length =
        (bucket key rest).length + if r.event.key? = some key then 1 else 0 := by
      rw [bucket, List.filter_cons, ← bucket]
      split <;> simp_all
    have hpolled : (polled (r :: rest)).length =
        (polled rest).length + if r.event.key? = none then 1 else 0 := by
      have := Event.key?_eq_none_iff r.event
      rw [polled, List.filter_cons, ← polled]
      split <;> simp_all
    simp only [hbucket, hpolled, List.sum_map_add, List.length_cons]
    cases hkey : r.event.key? with
    | none => simp; omega
    | some own =>
      have hown : (keys.map fun key => if own = key then 1 else 0).sum = 1 := by
        have hone := List.count_eq_one_of_mem hkeys (hrules r List.mem_cons_self own hkey)
        rw [List.count, List.countP_eq_length_filter] at hone
        simpa [List.sum_map_ite, eq_comm, Bool.beq_eq_decide_eq] using hone
      simp [hown]; omega

theorem ruleCount_eq_sum (s : Session) :
    s.ruleCount = (s.eventRules.values.map List.length).sum + s.conditionRules.length := by
  unfold ruleCount
  generalize s.conditionRules.length = n
  induction s.eventRules.values generalizing n with
  | nil => simp
  | cons rs rest ih =>
    rw [List.foldl_cons, ih, List.map_cons, List.sum_cons]
    omega

theorem ruleCount_of_files (h : s.frame.Files rules) : s.ruleCount = rules.length := by
  have hget : ∀ key, s.eventRules.get? key = filed (bucket key rules) := h.get?
  -- What is filed under a key is its bucket, and the buckets that are filed are all
  -- that have rules.
  have hvalues : s.eventRules.values.map List.length =
      s.eventRules.keys.map fun key => (bucket key rules).length := by
    rw [values, keys, List.map_map, List.map_map]
    refine List.map_congr_left ?_
    rintro ⟨key, rs⟩ hmem
    have hrs := (hget key).symm.trans (get?_of_mem hmem)
    change rs.length = (bucket key rules).length
    rw [← getD_filed (bucket key rules), hrs]
    rfl
  have hkeys : ∀ r ∈ rules, ∀ key, r.event.key? = some key → key ∈ s.eventRules.keys := by
    intro r hr key hkey
    have hmem : r ∈ bucket key rules := List.mem_filter.mpr ⟨hr, by simp [hkey]⟩
    have hfiled := hget key
    cases hbucket : bucket key rules with
    | nil =>
      rw [hbucket] at hmem
      cases hmem
    | cons r' rest =>
      rw [hbucket] at hfiled
      exact mem_keys_of_get? hfiled
  rw [ruleCount_eq_sum, hvalues, show s.conditionRules = polled rules from h.polled]
  exact sum_length_bucket h.nodup hkeys

/-- The registry of a session holds the rules of one list: a script replaces them, a
    scene takes the place of the scene before, a tag takes rules out, and all else leaves
    them. The registry holds the list after all operations, wherever a block of the next
    one begins, and after every statement; taking out rules gives their number; and each
    rule of the list stands under its key or is polled. -/
theorem registry_files (n : Nat) (options : Options) (hosts : Hosts) (ops : List Operation) :
    let s := Operation.afterAll (.ofDepth n) { options, hosts } ops
    let rules := ops.foldl Operation.rules []
    s.frame.Files rules ∧
    (∀ op : Operation, Linker.Within (·.Files (op.rules rules)) n op.run s) ∧
    (∀ st, ((exec (.ofDepth n) st).run s).2.frame.Files rules) ∧
    (∀ tag, ((Run.removeRules tag).run s).1 = .ok (rules.countP (·.tag == tag))) ∧
    ∀ r ∈ rules, match r.event.key? with
      | some key => r ∈ rulesFor s key
      | none => r.event.isPolled = true ∧ r ∈ s.conditionRules := by
  intro s rules
  have hempty : Frame.Files { options, hosts : Session }.frame [] :=
    ⟨fun _ => rfl, List.nodup_nil, rfl⟩
  have hfiles : s.frame.Files rules := hempty.afterAll n ops
  refine ⟨hfiles, fun op => op.within_run n (hfiles.settled op),
    fun st => Linker.frame_exec n st s ▸ hfiles, fun tag => ?_, fun r hr => ?_⟩
  · rw [run_removeRules, ruleCount_of_files hfiles, ruleCount_of_files (hfiles.removeRules tag)]
    have hlength : rules.length = (rules.filter fun r => r.tag == tag).length +
        (rules.filter fun r => r.tag != tag).length := List.length_eq_length_filter_add _
    refine congrArg Except.ok ?_
    rw [List.countP_eq_length_filter]
    omega
  · have hget : ∀ key, s.eventRules.get? key = filed (bucket key rules) := hfiles.get?
    cases hkey : r.event.key? with
    | some key =>
      change r ∈ rulesFor s key
      rw [rulesFor, hget, getD_filed]
      exact List.mem_filter.mpr ⟨hr, by simp [hkey]⟩
    | none =>
      have hpolled := (Event.key?_eq_none_iff _).mp hkey
      refine ⟨hpolled, ?_⟩
      rw [show s.conditionRules = polled rules from hfiles.polled]
      exact List.mem_filter.mpr ⟨hr, hpolled⟩

end Session
end Parlance
