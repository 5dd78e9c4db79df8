import Mathlib.Data.List.DropRight
import Parlance.Proofs.AlikeExec
import Parlance.Proofs.Cells

/-!
# The Last Part of a Path

The last part of a path is what stands behind its last slash, where slashes at the very end
do not count. With a second text the statement takes this text off the end of the part,
unless it is the whole part.

A suffix is taken off by its length, counted from the end. The empty suffix has no length to
count, and all of the part is taken off in its place.

## Main definitions

* `Path.IsLast`: The part follows the last slash of the path, up to slashes at the end.

## Theorems

* `Run.basename_suffix`: `basename` with a suffix takes the suffix off the last part of the path
  where it ends the part and is not all of it, and gives the part as it is where not.
* `Run.basename_suffix_archive`: Slashes at the end of the path, and a suffix with two points.
-/

namespace Parlance
open List

namespace Path

/-- The part follows the last slash of the path, up to slashes at the end. -/
def IsLast (path part : String) : Prop :=
  '/' ∉ part.toList ∧ ∃ front slashes, path.toList = front ++ part.toList ++ slashes ∧
    (∀ c ∈ slashes, c = '/') ∧ (∀ c ∈ front.getLast?, c = '/') ∧ (part = "" → front = [])

theorem isLast_lastPart (path : String) : IsLast path (lastPart (Text.dropTail '/' path)) := by
  let trimmed := path.toList.rdropWhile (· == '/')
  have hpart : (lastPart (Text.dropTail '/' path)).toList = trimmed.rtakeWhile (· != '/') := by
    simp only [lastPart, Text.dropTail, String.toList_ofList]
    rfl
  have hcut : trimmed.rdropWhile (· != '/') ++ trimmed.rtakeWhile (· != '/') = trimmed :=
    rdropWhile_append_rtakeWhile ..
  refine ⟨fun hmem => ?_, trimmed.rdropWhile (· != '/'), path.toList.rtakeWhile (· == '/'),
    ?_, fun c hc => ?_, fun c hc => ?_, fun hempty => ?_⟩
  · rw [hpart] at hmem
    simpa using mem_rtakeWhile_imp hmem
  · rw [hpart, hcut]
    exact (rdropWhile_append_rtakeWhile ..).symm
  · simpa using mem_rtakeWhile_imp hc
  · obtain ⟨hne, rfl⟩ := mem_getLast?_eq_getLast hc
    simpa using rdropWhile_last_not _ _ hne
  · -- What was trimmed ends in no slash, so without a last part nothing is left of it.
    have hnone : trimmed.rtakeWhile (· != '/') = [] := by rw [← hpart, hempty]; rfl
    have htrimmed : trimmed = [] := by
      by_contra hne
      exact rtakeWhile_eq_nil_iff.mp hnone hne
        (by simpa using rdropWhile_last_not _ _ hne)
    rw [htrimmed, rdropWhile_nil]

variable {part suffix : String}

theorem dropSuffix_of_not (h : ¬ (suffix.toList <:+ part.toList ∧ part ≠ suffix)) :
    dropSuffix part suffix = part := by
  rw [dropSuffix, if_pos]
  simpa [Text.endsWith, or_iff_not_imp_left] using h

theorem dropSuffix_append (h : suffix.toList <:+ part.toList) (hne : part ≠ suffix)
    (hsuffix : suffix ≠ "") : dropSuffix part suffix ++ suffix = part := by
  rw [dropSuffix, if_neg (by simp [Text.endsWith, h, hne]), if_neg (by simpa using hsuffix)]
  refine String.toList_inj.mp ?_
  rw [String.toList_append, String.toList_ofList, ← String.length_toList, ← String.length_toList]
  exact List.suffix_iff_eq_append.mp h

theorem dropSuffix_empty (part : String) : dropSuffix part "" = "" := by
  by_cases hpart : part = ""
  · rw [hpart, dropSuffix_of_not (by simp)]
  · rw [dropSuffix, if_neg (by simp [Text.endsWith, hpart])]
    rfl

theorem dropSuffix_isPrefix (part suffix : String) :
    (dropSuffix part suffix).toList <+: part.toList := by
  by_cases h : suffix.toList <:+ part.toList ∧ part ≠ suffix
  · by_cases hsuffix : suffix = ""
    · rw [hsuffix, dropSuffix_empty]
      exact nil_prefix
    · exact ⟨suffix.toList, by rw [← String.toList_append, dropSuffix_append h.1 h.2 hsuffix]⟩
  · exact ⟨[], by rw [dropSuffix_of_not h, append_nil]⟩

theorem dropSuffix_ne_empty (hsuffix : suffix ≠ "") (hpart : part ≠ "") :
    dropSuffix part suffix ≠ "" := by
  by_cases h : suffix.toList <:+ part.toList ∧ part ≠ suffix
  · intro hresult
    have hwhole := dropSuffix_append h.1 h.2 hsuffix
    rw [hresult, String.empty_append] at hwhole
    exact h.2 hwhole.symm
  · rwa [dropSuffix_of_not h]

end Path

namespace Run
variable {L : Linker} {s s₁ s₂ : Session}

theorem run_spellAll_cons {e : Expr} {rest : List Expr} {t : String} {ts : List String}
    (he : (evalText L e).run s = (.ok t, s₁))
    (hrest : (spellAll L text rest).run s₁ = (.ok ts, s₂)) :
    (spellAll L text (e :: rest)).run s = (.ok (t :: ts), s₂) := by
  have hcons : spellAll L text (e :: rest) =
      evalText L e >>= fun t => spellAll L text rest >>= fun ts => pure (t :: ts) := by
    rw [spellAll, evalText, bind_assoc]
  rw [hcons]
  exact (bind_ok he).trans (bind_ok hrest)

/-- `basename` with a suffix takes the suffix off the last part of the path where it ends the
    part and is not all of it, and gives the part as it is where not. The empty suffix is the
    exception: with it nothing is left of the part. -/
theorem basename_suffix (L : Linker) (pos : Position) (e d : Expr) (out : String)
    (s s₁ s₂ : Session) (path suffix : String)
    (he : (evalText L e).run { s with position := some pos } = (.ok path, s₁))
    (hd : (evalText L d).run s₁ = (.ok suffix, s₂)) :
    ∃ part result, Path.IsLast path part ∧
      (exec L (.command pos (.text (.path .basename [e, d] out)))).run s =
        (.ok .normal, { s₂ with bag := s₂.bag.insert out (.text result) }) ∧
      result.toList <+: part.toList ∧
      (suffix ≠ "" →
        (suffix.toList <:+ part.toList ∧ part ≠ suffix → result ++ suffix = part) ∧
        (¬ (suffix.toList <:+ part.toList ∧ part ≠ suffix) → result = part) ∧
        (result = "" → part = "")) ∧
      (suffix = "" → result = "") := by
  refine ⟨_, _, Path.isLast_lastPart path, ?_, Path.dropSuffix_isPrefix _ suffix,
    fun hsuffix => ⟨fun h => Path.dropSuffix_append h.1 h.2 hsuffix, Path.dropSuffix_of_not,
      not_imp_not.mp (Path.dropSuffix_ne_empty hsuffix)⟩, ?_⟩
  · refine run_placing_ok (run_normally_ok ?_)
    rw [TextCommand.exec]
    exact (bind_ok (run_spellAll_cons he (run_spellAll_cons hd rfl))).trans rfl
  · rintro rfl
    exact Path.dropSuffix_empty _

/-- Slashes at the end of the path, and a suffix with two points. -/
theorem basename_suffix_archive :
    ∃ part, Path.IsLast "/srv//data.tar.gz//" part ∧
      (exec .full (.command ⟨1, 1⟩ (.text (.path .basename
        [.text ⟨1, 13⟩ "/srv//data.tar.gz//", .text ⟨1, 39⟩ ".tar.gz"] "v")))).run {} =
        (.ok .normal, { position := some ⟨1, 1⟩, bag := .ofList [("v", .text "data")] }) ∧
      (".tar.gz".toList <:+ part.toList ∧ part ≠ ".tar.gz" → "data" ++ ".tar.gz" = part) := by
  obtain ⟨part, result, hlast, hrun, -, hsuffix, -⟩ := basename_suffix .full ⟨1, 1⟩
    (.text ⟨1, 13⟩ "/srv//data.tar.gz//") (.text ⟨1, 39⟩ ".tar.gz") "v" {} _ _
    "/srv//data.tar.gz//" ".tar.gz" rfl rfl
  have hresult : some (.text "data") = some (Value.text result) :=
    congrArg (·.2.bag.get? "v") hrun
  cases hresult
  exact ⟨part, hlast, hrun, (hsuffix (by decide)).1⟩

end Run
end Parlance
