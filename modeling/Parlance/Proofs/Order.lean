import Parlance.CommandLine

/-!
# The Order of Arguments

Each group of an argument list says by itself whether it can be taken; the only thing it asks
of the groups before it is whether they name a file. So a list is accepted if all of its groups
can be taken and one of them is a file, which does not depend on their order, and what the list
sets depends on the order of the values of one option only.

## Main definitions

* `Arguments.Group.offends`: Whether the group cannot be taken: its limit is not a positive whole
  number, its option lacks a value, or there is no such option.
* `Arguments.values`: The values of an option, in order.
* `Arguments.setBy`: What the groups set.
* `Arguments.heard`: The groups before the first that asks for help or the version.

## Theorems

* `Numeral.int?_digits`: A text of digits alone stands for its value, unless there are too many of
  them.
* `Arguments.take_cases`: All that a group can do: it asks for an answer, or it is refused, or it
  is taken.
* `Arguments.takeAll_eq_ok_iff`: What is accepted, whatever the order.
* `Arguments.any_order`: The order of the groups of an accepted list does not matter, as long as
  the values of each option keep theirs: any rearrangement is accepted with the same outcome.
-/

namespace Parlance.Numeral
open List
variable {ds : List Char}

theorem toAscii_digit {c : Char} (hc : c.isDigit = true) :
    toAscii c = c ∧ isAsciiBlank c = false ∧ c ∉ ['_', '-', '+'] := by
  obtain ⟨hlow, hhigh⟩ := (Bool.and_eq_true_iff.mp hc).imp of_decide_eq_true of_decide_eq_true
  rw [ge_iff_le, UInt32.le_iff_toNat_le] at hlow
  rw [UInt32.le_iff_toNat_le] at hhigh
  have hnat : 48 ≤ c.toNat ∧ c.toNat ≤ 57 := ⟨hlow, hhigh⟩
  refine ⟨if_pos (by omega), ?_, fun h => ?_⟩
  · have hspace : c ≠ ' ' := by rintro rfl; exact absurd hnat (by decide)
    simp only [isAsciiBlank, beq_eq_false_iff_ne.mpr hspace, Bool.false_or, Bool.and_eq_false_iff,
      decide_eq_false_iff_not]
    omega
  · simp only [mem_cons, not_mem_nil, or_false] at h
    rcases h with rfl | rfl | rfl <;> cases hc

theorem plain_digits (hds : ∀ d ∈ ds, d.isDigit = true) : plain (String.ofList ds) = ds := by
  have hmap : ds.map toAscii = ds := 
    (map_congr_left fun d hd => (toAscii_digit (hds d hd)).1).trans (map_id' ds)
  have hdrop {cs : List Char} (hcs : ∀ c ∈ cs, c.isDigit = true) : cs.dropWhile isAsciiBlank = cs := by
    cases cs with
    | nil => rfl
    | cons c cs => exact dropWhile_cons_of_neg (by simp [(toAscii_digit (hcs c mem_cons_self)).2.1])
  rw [plain, String.toList_ofList, hmap, Text.stripWhile, hdrop hds,
    hdrop fun c hc => hds c (mem_reverse.mp hc), reverse_reverse]

theorem ungroup_digits {c : Char} (hc : c ≠ '_') (hds : ∀ d ∈ ds, d.isDigit = true) :
    ungroup c ds = some ds := by
  induction ds generalizing c with
  | nil => simp [ungroup, hc]
  | cons d ds ih =>
    obtain ⟨hd, hds⟩ := forall_mem_cons.mp hds
    have hline : d ≠ '_' := fun h => (toAscii_digit hd).2.2 (by simp [h])
    simp [ungroup, hc, hline, ih hline hds]

/-- A text of digits alone stands for its value, unless there are too many of them. -/
theorem int?_digits (hne : ds ≠ []) (hds : ∀ d ∈ ds, d.isDigit = true) :
    int? (String.ofList ds) = if maxDigits < ds.length then none else some (natOf ds : Int) := by
  have hsign : splitSign ds = (false, ds) := by
    obtain ⟨d, ds, rfl⟩ := exists_cons_of_ne_nil hne
    have hd := (toAscii_digit (hds d mem_cons_self)).2.2
    unfold splitSign
    split <;> simp_all
  rw [int?, plain_digits hds, ungroup_digits (by decide) hds]
  simp [hsign, hne, all_eq_true.mpr hds]

theorem natOf_ones_pos (n : Nat) : 0 < natOf (replicate (n + 1) '1') := by
  rw [natOf, replicate_succ, foldl_cons]
  exact foldlRecOn (motive := (0 < ·)) _ _ Nat.one_pos fun n hn c _ => by omega

end Parlance.Numeral

namespace Parlance.Arguments
namespace Group

def words : Group → List String
  | .pair option value => [option.word, value]
  | .lone word => [word]

def value? (option : Valued) : Group → Option String
  | .pair o v => if o = option then some v else none
  | .lone _ => none

def file? : Group → Option String
  | .pair _ _ => none
  | .lone w => if Text.startsWith w "-" then none else some w

def asks : Group → Bool
  | .pair _ _ => false
  | .lone w => w ∈ ["--help", "-h", "--version"]

/-- Whether the group cannot be taken: its limit is not a positive whole number, its option lacks
    a value, or there is no such option. -/
def offends : Group → Bool
  | .pair o v => o = .whileLimit && !(Numeral.int? v).any (0 < ·)
  | .lone w => w ∈ ["--event", "--while-limit", "--db"] || Text.startsWith w "-" &&
    w ∉ ["--help", "-h", "--version", "--parse", "--verbose", "-v"]

end Group

open List Arguments.Group CommandLine

/-- The values of an option, in order. -/
def values (option : Valued) (gs : List Group) : List String := gs.filterMap (value? option)

def filesOf (gs : List Group) : List String := gs.filterMap file?

/-- What the groups set. -/
def setBy (a : Arguments) (gs : List Group) : Arguments where
  file := (filesOf gs).getLast?.getD a.file
  event := (values .event gs).getLast?.getD a.event
  parseOnly := gs.any (· == .lone "--parse") || a.parseOnly
  whileLimit := ((values .whileLimit gs).getLast?.map Numeral.int?).getD a.whileLimit
  database := (values .database gs).getLast?.or a.database
  verbose := gs.any (fun g => g == .lone "--verbose" || g == .lone "-v") || a.verbose

variable {a a' : Arguments} {named : Bool} {g : Group} {gs gs' : List Group}

theorem setBy_nil : a.setBy [] = a := by
  simp [setBy, values, filesOf]

theorem setBy_cons : a.setBy (g :: gs) = (a.setBy [g]).setBy gs := by
  have hlast {α : Type} (f : Group → Option α) :
      ((g :: gs).filterMap f).getLast? = (gs.filterMap f).getLast?.or ([g].filterMap f).getLast? := by
    rw [← singleton_append, filterMap_append, getLast?_append]
  simp only [setBy, values, filesOf, hlast, Option.map_or, Option.getD_or, Option.or_assoc,
    any_cons, any_nil, Bool.or_false, Bool.or_left_comm, Bool.or_assoc]

theorem filesOf_cons : filesOf (g :: gs) = g.file?.toList ++ filesOf gs := by
  rw [filesOf, filterMap_cons]
  cases g.file? <;> rfl

/-! ### Groups and words -/

theorem valued?_word (o : Valued) : valued? o.word = some o := by
  cases o <;> rfl

theorem word_of_valued? {w : String} {o : Valued} (h : valued? w = some o) : o.word = w :=
  eq_of_beq (find?_some (p := (Valued.word · == w)) h)

theorem isSome_valued? {w : String} :
    (valued? w).isSome = decide (w ∈ ["--event", "--while-limit", "--db"]) := by
  rw [Bool.eq_iff_iff, valued?, find?_isSome, decide_eq_true_iff]
  simp [Valued.word, eq_comm (a := w)]

theorem flatMap_words (args : List String) : (groups args).flatMap words = args := by
  fun_induction groups args with
  | case1 => rfl
  | case2 => rfl
  | case3 w next rest o ho ih => simp [words, word_of_valued? ho, ih]
  | case4 w next rest hw ih => simp [words, ih]

theorem groups_flatMap_words (h : ∀ g ∈ gs, g.offends = false) : groups (gs.flatMap words) = gs := by
  induction gs with
  | nil => rfl
  | cons g gs ih =>
    obtain ⟨hg, hgs⟩ := forall_mem_cons.mp h
    have hrest := ih hgs
    rw [flatMap_cons]
    generalize gs.flatMap words = rest at hrest
    cases g with
    | pair o v => simp only [words, cons_append, nil_append, groups, valued?_word, hrest]
    | lone w =>
      rw [offends, ← isSome_valued?, Bool.or_eq_false_iff, Option.isSome_eq_false_iff,
        Option.isNone_iff_eq_none] at hg
      cases rest with
      | nil => exact hrest ▸ rfl
      | cons next rest => simp only [words, singleton_append, groups, hg.1, hrest]

/-! ### Taking groups -/

/-- All that a group can do: it asks for an answer, or it is refused, or it is taken. -/
theorem take_cases (a : Arguments) (named : Bool) (g : Group) (files : Files) :
    (g.asks = true ∧ ∃ r, a.take named g = .error r ∧ (refuse files r).code = 0) ∨
    (g.asks = false ∧ (g.offends || g.file?.isSome && named) = true ∧
      ∃ r, a.take named g = .error r ∧ (refuse files r).code = 2) ∨
    (g.asks = false ∧ g.offends = false ∧ (g.file?.isSome && named) = false ∧
      a.take named g = .ok (a.setBy [g], g.file?.isSome || named)) := by
  cases g with
  | pair o v =>
    cases o
    case event | database => exact .inr (.inr ⟨rfl, rfl, rfl, rfl⟩)
    -- The limit has to be read before it is known whether it can be taken.
    rw [take]
    rcases hv : Numeral.int? v with _ | n
    · exact .inr (.inl ⟨rfl, by simp [offends, hv], _, rfl, rfl⟩)
    dsimp only
    split
    case isTrue hn => exact .inr (.inl ⟨rfl, by simp [offends, hv, hn], _, rfl, rfl⟩)
    case isFalse hn =>
      have hset : a.setBy [.pair .whileLimit v] = { a with whileLimit := Numeral.int? v } := rfl
      exact .inr (.inr ⟨rfl, by simp [offends, hv, Int.not_le.mp hn], rfl, by rw [hset, hv]; rfl⟩)
  | lone w =>
    by_cases hw : w ∈ ["--help", "-h", "--version", "--parse", "--verbose", "-v"]
    · simp only [mem_cons, not_mem_nil, or_false] at hw
      rcases hw with rfl | rfl | rfl | rfl | rfl | rfl
      iterate 3 exact .inl ⟨by decide, _, rfl, rfl⟩
      all_goals exact .inr (.inr ⟨by decide, by decide, rfl, rfl⟩)
    have hoffends : (lone w).offends = ((valued? w).isSome || Text.startsWith w "-") := by
      rw [offends, isSome_valued?, decide_eq_true hw, Bool.and_true]
    simp only [mem_cons, not_mem_nil, or_false, not_or] at hw
    have hasks : (lone w).asks = false := by simp [asks, hw]
    have htake : a.take named (lone w) =
        if (valued? w).isSome then .error (.missingValue w)
        else if Text.startsWith w "-" then .error (.unknownFlag w)
        else if named then .error (.extraFile w)
        else .ok ({ a with file := w }, true) := by simp [take, hw]
    rw [htake, hoffends, file?]
    cases (valued? w).isSome with
    | true => exact .inr (.inl ⟨hasks, rfl, _, rfl, rfl⟩)
    | false => cases hdash : Text.startsWith w "-" with
      | true => exact .inr (.inl ⟨hasks, rfl, _, rfl, rfl⟩)
      | false => cases named with
        | true => exact .inr (.inl ⟨hasks, rfl, _, rfl, rfl⟩)
        | false =>
          exact .inr (.inr ⟨hasks, rfl, rfl, by simp [setBy, filesOf, file?, hdash, values, value?, hw]⟩)

theorem length_filesOf_cons (h : (g.file?.isSome && named) = false) :
    (filesOf (g :: gs)).length + named.toNat =
      (filesOf gs).length + (g.file?.isSome || named).toNat := by
  rw [filesOf_cons]
  cases hf : g.file? <;> cases named <;> simp_all

/-- What is accepted, whatever the order. -/
theorem takeAll_eq_ok_iff : a.takeAll named gs = .ok a' ↔
    (∀ g ∈ gs, g.asks = false ∧ g.offends = false) ∧
      (filesOf gs).length + named.toNat = 1 ∧ a' = a.setBy gs := by
  induction gs generalizing a named with
  | nil =>
    rw [setBy_nil, eq_comm (a := a')]
    cases named <;> simp [takeAll, filesOf]
  | cons g gs ih =>
    rw [takeAll, forall_mem_cons, setBy_cons]
    obtain ⟨hasks, r, htake, -⟩ | ⟨-, hrefused, r, htake, -⟩ | ⟨hasks, hfits, hfile, htake⟩ :=
      take_cases a named g ⟨.folder [], []⟩ <;> rw [htake]
    · exact iff_of_false nofun fun h => Bool.false_ne_true (h.1.1.1.symm.trans hasks)
    · refine iff_of_false (fun h => by cases h) fun ⟨⟨⟨_, hfits⟩, _⟩, hcount, _⟩ => ?_
      -- It is a second file, so there is one too many.
      rw [hfits, Bool.false_or, Bool.and_eq_true, Option.isSome_iff_exists] at hrefused
      obtain ⟨⟨f, hf⟩, rfl⟩ := hrefused
      simp [filesOf_cons, hf] at hcount
    · rw [length_filesOf_cons hfile, hasks, hfits]
      exact ih.trans (by simp)

/-- The groups before the first that asks for help or the version. -/
def heard (gs : List Group) : List Group := gs.takeWhile (!·.asks)

/-- What is rejected: before any question, a group offends or there is a second file; or there is
    neither a question nor a file. -/
theorem takeAll_rejects_iff (a : Arguments) (named : Bool) (gs : List Group) (files : Files) :
    (∃ r, a.takeAll named gs = .error r ∧ (refuse files r).code = 2) ↔
      (∃ g ∈ heard gs, g.offends = true) ∨ 1 < (filesOf (heard gs)).length + named.toNat ∨
        heard gs = gs ∧ (filesOf gs).length + named.toNat = 0 := by
  induction gs generalizing a named with
  | nil => cases named <;> simp [takeAll, heard, filesOf, refuse, refuse.usageError]
  | cons g gs ih =>
    rw [takeAll]
    obtain ⟨hasks, r, htake, hcode⟩ | ⟨hasks, hrefused, r, htake, hcode⟩ |
      ⟨hasks, hfits, hfile, htake⟩ := take_cases a named g files <;> rw [htake]
    · have hheard : heard (g :: gs) = [] := by simp [heard, hasks]
      refine iff_of_false (fun ⟨r', hr, hcode'⟩ => ?_) ?_
      · cases hr
        exact absurd (hcode.symm.trans hcode') (by decide)
      · rw [hheard]
        cases named <;> simp [filesOf]
    all_goals have hheard : heard (g :: gs) = g :: heard gs := by simp [heard, hasks]
    · refine iff_of_true ⟨r, rfl, hcode⟩ ?_
      rw [hheard, filesOf_cons]
      rcases Bool.or_eq_true_iff.mp hrefused with hoffends | hsecond
      · exact .inl ⟨g, mem_cons_self, hoffends⟩
      · rw [Bool.and_eq_true, Option.isSome_iff_exists] at hsecond
        obtain ⟨⟨f, hf⟩, rfl⟩ := hsecond
        exact .inr (.inl (by simp [hf]))
    · rw [hheard, length_filesOf_cons hfile, length_filesOf_cons hfile, cons_inj_right]
      exact (ih _ _).trans (by simp [hfits])

theorem setBy_perm (hperm : gs'.Perm gs) (hvalues : ∀ o, values o gs' = values o gs)
    (hfiles : (filesOf gs).length = 1) : a.setBy gs' = a.setBy gs := by
  have hfile : filesOf gs' = filesOf gs := by
    obtain ⟨f, hf⟩ := length_eq_one_iff.mp hfiles
    rw [hf]
    exact perm_singleton.mp (hf ▸ hperm.filterMap file?)
  simp only [setBy, hfile, hvalues, hperm.any_eq]

theorem positive_of_mem_values {v : String} (h : ∀ g ∈ gs, g.offends = false)
    (hv : v ∈ values .whileLimit gs) : (Numeral.int? v).any (0 < ·) = true := by
  obtain ⟨g, hg, hvalue⟩ := mem_filterMap.mp hv
  have hfits := h g hg
  cases g with
  | lone w => cases hvalue
  | pair o w =>
    rw [value?, Option.ite_none_right_eq_some] at hvalue
    obtain ⟨rfl, ⟨⟩⟩ := hvalue
    simpa [offends] using hfits

/-- The order of the groups of an accepted list does not matter, as long as the values of each
    option keep theirs: any rearrangement is accepted with the same outcome. Each option has its
    last value, and a limit is positive. A list is rejected, with status 2, exactly if one of its
    groups offends or is a second file, with no question for help or the version before, or if
    there is neither a file nor such a question. -/
theorem any_order (files : Files) (environment : Dict String) (args : List String) :
    (groups args).flatMap words = args ∧
    (∀ a, parse args = .ok a →
      (∀ gs, gs.Perm (groups args) → (∀ o, values o gs = values o (groups args)) →
        parse (gs.flatMap words) = .ok a) ∧
      a.event = (values .event (groups args)).getLast?.getD "starts:game" ∧
      a.database = (values .database (groups args)).getLast? ∧
      a.whileLimit = (values .whileLimit (groups args)).getLast?.bind Numeral.int? ∧
      ∀ n, a.whileLimit = some n → 0 < n) ∧
    ((∃ r, parse args = .error r ∧ run files environment args = .ok (refuse files r) ∧
        (refuse files r).code = 2) ↔
      (∃ g ∈ heard (groups args), g.offends = true) ∨
        1 < (filesOf (heard (groups args))).length ∨
        heard (groups args) = groups args ∧ filesOf (groups args) = []) := by
  refine ⟨flatMap_words args, fun a ha => ?_, ?_⟩
  · obtain ⟨hgs, hfiles, rfl⟩ := takeAll_eq_ok_iff.mp ha
    have hlimit : (setBy { file := "" } (groups args)).whileLimit =
        (values .whileLimit (groups args)).getLast?.bind Numeral.int? := by
      rw [setBy]
      cases (values .whileLimit (groups args)).getLast? <;> rfl
    refine ⟨fun gs hperm hvalues => ?_, rfl, Option.or_none, hlimit, fun n hn => ?_⟩
    · have hall : ∀ g ∈ gs, g.asks = false ∧ g.offends = false :=
        fun g hg => hgs g (hperm.mem_iff.mp hg)
      rw [parse, groups_flatMap_words fun g hg => (hall g hg).2, takeAll_eq_ok_iff]
      exact ⟨hall, (hperm.filterMap file?).length_eq ▸ hfiles,
        (setBy_perm hperm hvalues hfiles).symm⟩
    · obtain ⟨v, hlast, hv⟩ := Option.bind_eq_some_iff.mp (hlimit.symm.trans hn)
      have hpos := positive_of_mem_values (fun g hg => (hgs g hg).2) (mem_of_getLast? hlast)
      simpa [hv] using hpos
  · have hrun (r : Refusal) (hr : parse args = .error r) :
        run files environment args = .ok (refuse files r) := by rw [run, hr]
    have hrejects := takeAll_rejects_iff { file := "" } false (groups args) files
    rw [Bool.toNat_false, Nat.add_zero, Nat.add_zero, length_eq_zero_iff] at hrejects
    rw [← hrejects]
    exact ⟨fun ⟨r, hr, _, hcode⟩ => ⟨r, hr, hcode⟩, fun ⟨r, hr, hcode⟩ => ⟨r, hr, hrun r hr, hcode⟩⟩

/-- The flag and the file change places with the events, and the last event counts. -/
theorem any_order_swapped :
    parse ["f", "--event", "a", "--event", "--help", "-v"] =
      .ok { file := "f", event := "--help", verbose := true } :=
  ((any_order ⟨.folder [], []⟩ ∅ ["--event", "a", "-v", "f", "--event", "--help"]).2.1 _ rfl).1
    (groups ["f", "--event", "a", "--event", "--help", "-v"]) (by decide) fun o => by cases o <;> rfl

theorem run_of_not_whole {limit : String} (h : Numeral.int? limit = none) (files : Files)
    (environment : Dict String) (args : List String) :
    run files environment ("--while-limit" :: limit :: args) = .ok (refuse files (.notWhole limit)) := by
  have hgroups : groups ("--while-limit" :: limit :: args) = .pair .whileLimit limit :: groups args :=
    rfl
  simp only [run, parse, hgroups, takeAll, take, h]
  rfl

/-- A positive limit with one digit too many is refused. -/
theorem long_limit_refused :
    let limit := String.ofList (replicate (Numeral.maxDigits + 1) '1')
    limit.toList.all Char.isDigit = true ∧ 0 < Numeral.natOf limit.toList ∧
      (run ⟨.folder [], []⟩ ∅ ["--while-limit", limit, "f"]).map (·.code) = .ok 2 := by
  have hds : ∀ d ∈ replicate (Numeral.maxDigits + 1) '1', d.isDigit = true := fun d hd => by
    rw [eq_of_mem_replicate hd]
    rfl
  refine ⟨?_, ?_, ?_⟩
  · rwa [String.toList_ofList, all_eq_true]
  · rw [String.toList_ofList]
    exact Numeral.natOf_ones_pos Numeral.maxDigits
  · rw [run_of_not_whole]
    · rfl
    · rw [Numeral.int?_digits (by simp) hds, length_replicate, if_pos (Nat.lt_succ_self _)]

end Parlance.Arguments
