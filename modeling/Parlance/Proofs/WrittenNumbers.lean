import Parlance.Proofs.Literals
import Parlance.Proofs.Requests
import Parlance.Proofs.Spelling
import Parlance.Proofs.Unwinding

/-!
# Numbers as They are Written

Digits in a script are one token, whatever their number. Its value goes through binary64, so it is the
whole number that the digits write exactly if binary64 has that number: 53 bits, and zeros behind them.
Any other one becomes a neighbour that binary64 has, and from `Binary.limit` on it is infinite. What a
script prints is the value, and so not always what was written.

## Main definitions

* `Run.printing`: A script that gives a number to a variable and prints it.
* `Run.printingTokens`: Its tokens, with the value of the number.
* `Run.printingMain`: The two statements of the script.

## Theorems

* `Run.prints_written`: What digits in a script are worth, and what is printed for them.
* `Run.prints_written_odd`: One more than `2 ^ 53` is printed as `2 ^ 53`.
-/

namespace Parlance
open Vocabulary Binary String Number List Nat Token

theorem natAbs_ite (negative : Bool) (n : Nat) :
    (if negative then -(n : Int) else n).natAbs = n := by
  split <;> simp

namespace Number

theorem toString_ne_infinity (n : Int) (negative : Bool) :
    (float (Binary.infinity negative)).spelled ≠ toString n := by
  intro h
  have hmem : 'y' ∈ (toString n).toList := by
    rw [← h]
    cases negative <;> decide
  rw [Scan.toList_toString] at hmem
  have hdigit : 'y' ∉ toDigits 10 n.natAbs := fun hmem =>
    absurd (Scan.isDigit_of_mem_toDigits hmem) (by decide)
  split at hmem
  · exact hdigit ((mem_cons.mp hmem).resolve_left (by decide))
  · exact hdigit hmem

variable (negative : Bool) {n : Nat}

theorem exists_normal_ofRatio (h : n < Binary.limit) :
    ∃ m, normal (float (Binary.ofRatio negative n 1)) = int m := by
  obtain ⟨m, hm, -⟩ := exists_whole?_ofRatio negative h
  exact ⟨m, by rw [normal, hm]⟩

theorem normal_ofRatio_of_limit_le (h : Binary.limit ≤ n) :
    normal (float (Binary.ofRatio negative n 1)) = float (Binary.infinity negative) := by
  rw [Binary.ofRatio_of_limit_le negative Nat.one_pos ((Nat.mul_one _).trans_le h)]
  cases negative <;> rfl

theorem normal_ofRatio_eq_iff :
    normal (float (Binary.ofRatio negative n 1)) = int (if negative then -(n : Int) else n) ↔
      Has n := by
  constructor
  · intro h
    cases hx : whole? (Binary.ofRatio negative n 1) with
    | none =>
      rw [normal, hx] at h
      cases h
    | some m =>
      rw [normal, hx] at h
      have hhas := Has.of_whole? hx
      rwa [int.inj h, natAbs_ite] at hhas
  · intro h
    rw [normal, h.whole?_eq negative]

theorem spelled_normal_ofRatio_eq_iff :
    (normal (float (Binary.ofRatio negative n 1))).spelled =
      toString (if negative then -(n : Int) else n) ↔ Has n := by
  rw [← normal_ofRatio_eq_iff negative]
  refine ⟨fun h => ?_, fun h => by rw [h]; rfl⟩
  rcases lt_or_ge n Binary.limit with hlt | hle
  · obtain ⟨m, hm⟩ := exists_normal_ofRatio negative hlt
    rw [hm] at h ⊢
    rw [Scan.toString_inj.mp h]
  · rw [normal_ofRatio_of_limit_le negative hle] at h
    exact absurd h (toString_ne_infinity _ negative)

end Number

namespace Scan
variable {ds : List Char}

theorem isSign_signed (negative : Bool) (ds : List Char) :
    ∃ sign, IsSign sign ∧ signed negative ds = sign ++ ds := by
  cases negative with
  | true => exact ⟨['-'], .inr rfl, rfl⟩
  | false => exact ⟨[], .inl rfl, rfl⟩

theorem lexes_signed (negative : Bool) (hds : Digits ds) {rest : List Char}
    (hrest : NoneAhead (fun c => isDigit c || c == '.') rest) :
    Lexes true (signed negative ds)
      (some (.number, .number (numberOf (signed negative ds)))) rest := by
  obtain ⟨sign, hsign, heq⟩ := isSign_signed negative ds
  rw [heq]
  exact .number hsign hds hrest

theorem stepAll_signed (negative : Bool) (hds : Digits ds) (p : Position) :
    p.stepAll (signed negative ds) = ⟨p.line, p.col + (signed negative ds).length⟩ := by
  have hline (cs : List Char) (hcs : '\n' ∉ cs) (p : Position) :
      p.stepAll cs = ⟨p.line, p.col + cs.length⟩ := by
    induction cs generalizing p with
    | nil => rfl
    | cons c cs ih =>
      rw [mem_cons, not_or] at hcs
      have hstep : p.step c = ⟨p.line, p.col + 1⟩ := if_neg (Ne.symm hcs.1)
      change (p.step c).stepAll cs = _
      rw [hstep, ih hcs.2, length_cons, add_comm cs.length, add_assoc]
  refine hline _ (fun hmem => ?_) p
  have hdigit : '\n' ∉ ds := fun hmem => absurd (hds.2 _ hmem) (by decide)
  cases negative with
  | true => exact hdigit ((mem_cons.mp hmem).resolve_left (by decide))
  | false => exact hdigit hmem

theorem scan_signed (negative : Bool) (hds : Digits ds) : scan (ofList (signed negative ds)) =
      [⟨.number, .number (numberOf (signed negative ds)), .start⟩,
        .finish ⟨1, 1 + (signed negative ds).length⟩] := by
  have h := (lexes_signed negative hds noneAhead_nil).tokensFrom_eq .start
  rw [append_nil, stepAll_signed negative hds] at h
  rw [scan, toList_ofList, h]
  rfl

end Scan

namespace Run
open Scan

/-- A script that gives a number to a variable and prints it. -/
def printing (digits : String) : String := "let x be " ++ digits ++ "\nprint x"

/-- Its tokens, with the value of the number. -/
def printingTokens (n : Number) : List Token :=
  [⟨.action, .text "let", ⟨1, 1⟩⟩, ⟨.identifier, .text "x", ⟨1, 5⟩⟩,
    ⟨.preposition, .text "be", ⟨1, 7⟩⟩, ⟨.number, .number n, ⟨1, 10⟩⟩,
    ⟨.action, .text "print", ⟨2, 1⟩⟩, ⟨.identifier, .text "x", ⟨2, 7⟩⟩, .finish ⟨2, 8⟩]

set_option maxRecDepth 4000 in
theorem scan_printing {ds : List Char} (negative : Bool) (hds : Digits ds) :
    scan (printing (ofList (signed negative ds))) =
      printingTokens (numberOf (signed negative ds)) := by
  have hchars : (printing (ofList (signed negative ds))).toList =
      "let x be ".toList ++ (signed negative ds ++ '\n' :: "print x".toList) := by
    rw [printing, toList_append, toList_append,
      toList_ofList (l := signed negative ds), List.append_assoc]
    rfl
  have hlet : classify "let" = (.action, .text "let") := by decide
  have hx : classify "x" = (.identifier, .text "x") := by decide
  have hbe : classify "be" = (.preposition, .text "be") := by decide
  have hprint : classify "print" = (.action, .text "print") := by decide
  let word (w : String) (p : Position) : Token :=
    ⟨(classify w).1, (classify w).2, p⟩
  have hfirst (rest : List Char) : tokensFrom .start 0 ("let x be ".toList ++ rest) =
      [word "let" ⟨1, 1⟩, word "x" ⟨1, 5⟩, word "be" ⟨1, 7⟩] ++ tokensFrom ⟨1, 10⟩ 0 rest := rfl
  have hlast (p : Position) : tokensFrom p 0 ('\n' :: "print x".toList) =
      [word "print" ⟨p.line + 1, 1⟩, word "x" ⟨p.line + 1, 7⟩, .finish ⟨p.line + 1, 8⟩] := rfl
  have hahead : NoneAhead (fun c => isDigit c || c == '.') ('\n' :: "print x".toList) :=
    noneAhead_cons.mpr (by decide)
  have hlexes := lexes_signed negative hds hahead
  rw [scan, hchars, hfirst, hlexes.tokensFrom_eq, stepAll_signed negative hds,
    Bool.not_true, Bool.toNat_false, hlast]
  simp only [word, hlet, hx, hbe, hprint]
  rfl

theorem run_display {n : Number} (hn : n.isShort = true) (s : Session) :
    (display (.number n)).run s = (.ok n.spelled, s) := by
  have hdisplay : s.heap.display (.number n) = .ok n.spelled := by
    have hshort : (s.heap.tree (.number n)).isShort = true := (Tree.isShort_number n).trans hn
    rw [Heap.display, Heap.writableTree_eq, if_pos hshort]
    rfl
  rw [display, bind_ok (run_get s), hdisplay]
  rfl

/-- The two statements of the script. -/
def printingMain (n : Number) : List Stmt :=
  [.command ⟨1, 1⟩ (.bag (.define "x" (.number ⟨1, 10⟩ n))),
    .command ⟨2, 1⟩ (.stage (.print (.name ⟨2, 7⟩ "x")))]

theorem run_printing {n : Number} (hn : n.isShort = true) (L : Linker) (s : Session)
    (hs : s.hosts = {}) : ∃ s', (execBlock L (printingMain n)).run s = (.ok .normal, s') ∧
      s'.hosts.world.lines = #[.text n.spelled] := by
  let s₁ : Session := { s with position := some ⟨1, 1⟩, bag := s.bag.insert "x" (.number n) }
  let s₂ : Session := { s₁ with position := some ⟨2, 1⟩ }
  have hdefine : (exec L (.command ⟨1, 1⟩ (.bag (.define "x" (.number ⟨1, 10⟩ n))))).run s =
      (.ok .normal, s₁) := rfl
  have hstage : (hasStage "print").run s₂ = (.ok true, s₂) := by
    change (hasStage "print").run { s₂ with hosts := s.hosts } = (_, { s₂ with hosts := s.hosts })
    rw [hs]
    rfl
  have hname : (eval L (.name ⟨2, 7⟩ "x")).run s₂ = (.ok (.number n), s₂) := by
    have hvar : (var? "x").run s₂ = (.ok (some (.number n)), s₂) :=
      congrArg (fun v => (Except.ok v, s₂)) (s.bag.get?_insert_self "x" (.number n))
    rw [eval, resolve, bind_ok hvar]
    rfl
  have hlog : ∃ s₃, (direct L "log" [.text n.spelled]).run s₂ = (.ok (), s₃) ∧
      s₃.hosts.world.lines = #[.text n.spelled] := by
    change ∃ s₃, (direct L "log" [.text n.spelled]).run { s₂ with hosts := s.hosts } = _ ∧ _
    rw [hs]
    exact ⟨_, rfl, rfl⟩
  obtain ⟨s₃, hlog, hlines⟩ := hlog
  have hprint : (exec L (.command ⟨2, 1⟩ (.stage (.print (.name ⟨2, 7⟩ "x"))))).run s₁ =
      (.ok .normal, s₃) := by
    refine run_placing_ok (run_normally_ok ?_)
    exact (bind_ok hstage).trans ((bind_ok hname).trans ((bind_ok (run_display hn s₂)).trans hlog))
  refine ⟨s₃, ?_, hlines⟩
  rw [printingMain, execBlock, bind_ok hdefine]
  exact (Guard.run_execBlock_singleton L _ s₁).trans hprint

theorem load_printing {source : String} {n : Number} (hn : n.isShort = true) (options : Options)
    (hscan : scan source = printingTokens n) : ((load .full source).run { options }).1 = .ok [] ∧
      ((load .full source).run { options }).2.hosts.world.lines = #[.text n.spelled] := by
  have hread : Program.ofSource source = ⟨.ok ⟨[], printingMain n⟩, []⟩ := by
    rw [Program.ofSource, hscan]
    rfl
  have hmain (s : Session) (hs : s.hosts = {}) (hp : s.program = some ⟨[], printingMain n⟩) :
      ((runMain .full).run s).1 = .ok [] ∧
        ((runMain .full).run s).2.hosts.world.lines = #[.text n.spelled] := by
    obtain ⟨s', hrun, hlines⟩ := run_printing hn (.ofDepth 1999) s hs
    have hbody : (body .full (printingMain n)).run s = (.ok none, s') := by
      have hblock : (Linker.full.block (printingMain n)).run s = (.ok .normal, s') := hrun
      rw [run_body, hblock]
    rw [runMain, bind_ok (run_get s), hp, bind_ok hbody]
    exact ⟨rfl, hlines⟩
  have hload : ∃ s, s.hosts = {} ∧ s.program = some ⟨[], printingMain n⟩ ∧
      (load .full source).run { options } = (runMain .full).run s := by
    have hr : (read source).run { options } = (.ok ⟨[], printingMain n⟩, { options }) := by
      rw [read, hread]
      rfl
    refine ⟨_, ?_, ?_, (bind_ok hr).trans ((bind_ok rfl).trans (bind_ok rfl))⟩ <;> rfl
  obtain ⟨s, hs, hp, hrun⟩ := hload
  rw [hrun]
  exact hmain s hs hp

/-- What digits in a script are worth, and what is printed for them. The value is the whole
    number that they write exactly if binary64 has that number. -/
theorem prints_written (negative : Bool) (ds : List Char) (hds : Digits ds) (options : Options) :
    let n := Numeral.natOf ds
    let written : Int := if negative then -(n : Int) else n
    let digits := ofList (signed negative ds)
    let value := normal (.float (Binary.ofRatio negative n 1))
    let outcome := (load .full (printing digits)).run { options }
    scan digits =
      [⟨.number, .number value, .start⟩, .finish ⟨1, 1 + (signed negative ds).length⟩] ∧
    (value = .int written ↔ Has n) ∧
    (n < Binary.limit → ∃ m, value = .int m) ∧
    (Binary.limit ≤ n → value = .float (Binary.infinity negative)) ∧
    outcome.1 = .ok [] ∧ outcome.2.hosts.world.lines = #[.text value.spelled] ∧
    (value.spelled = toString written ↔ Has n) := by
  have hvalue := numberOf_signed negative hds.2
  have hscan := scan_signed negative hds
  have htokens := scan_printing negative hds
  rw [hvalue] at hscan htokens
  obtain ⟨hresult, hlines⟩ := load_printing (isShort_normal rfl) options htokens
  exact ⟨hscan, normal_ofRatio_eq_iff negative, exists_normal_ofRatio negative,
    normal_ofRatio_of_limit_le negative, hresult, hlines,
    spelled_normal_ofRatio_eq_iff negative⟩

/-- One more than `2 ^ 53` is printed as `2 ^ 53`. -/
theorem prints_written_odd :
    let outcome := (load .full (printing "9007199254740993")).run {}
    outcome.2.hosts.world.lines = #[.text "9007199254740992"] ∧ ¬Has 9007199254740993 := by
  have hds : Digits "9007199254740993".toList := ⟨by decide, by simp [isDigit]⟩
  obtain ⟨-, hexact, -, -, -, hlines, -⟩ := prints_written false _ hds {}
  have hvalue : normal (.float (Binary.ofRatio false
      (Numeral.natOf "9007199254740993".toList) 1)) = .int 9007199254740992 := by decide
  have hdigits : ofList (signed false "9007199254740993".toList) = "9007199254740993" := rfl
  rw [hvalue] at hexact hlines
  rw [hdigits] at hlines
  exact ⟨hlines, fun h => absurd (hexact.mpr h) (by decide)⟩

end Run
end Parlance
