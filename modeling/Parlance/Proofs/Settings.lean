import Mathlib.Data.List.DropRight
import Parlance.Options

/-!
# Settings from the Environment

A variable that is set has to hold a usable value. Whole numbers, paths and seconds are read
in their own ways, and each reader refuses what it cannot read and what is not positive or is
blank. What is left is usable, with one exception: an undefined number of seconds is not
positive, but it is not below zero either, and that is what the reader asks.

## Main definitions

* `Options.IsRefused`: The value of a variable cannot be read, is blank, or is not above zero.
* `Options.Usable`: The settings are usable, and each is from its variable or the default.

## Theorems

* `Options.ofEnvironment_usable`: An environment is refused if a variable in it is, and otherwise
  gives usable settings.
* `Options.ofEnvironment_undefined`: An undefined number of seconds is not refused.
-/

namespace Parlance
open Numeral List

namespace Text
variable {p : Char → Bool} {cs : List Char}

theorem stripWhile_eq (p : Char → Bool) (cs : List Char) :
    stripWhile p cs = (cs.dropWhile p).rdropWhile p := rfl

theorem stripWhile_eq_nil_iff : stripWhile p cs = [] ↔ ∀ c ∈ cs, p c = true := by
  rw [stripWhile_eq, rdropWhile_eq_nil_iff]
  refine ⟨fun h => ?_, fun h c hc => h c (dropWhile_sublist p |>.subset hc)⟩
  have hnil : cs.dropWhile p = [] := by
    by_contra hne
    exact dropWhile_get_zero_not p cs (length_pos_iff.mpr hne) (h _ (getElem_mem _))
  exact dropWhile_eq_nil_iff.mp hnil

theorem eq_false_of_end_stripWhile {c : Char}
    (h : (stripWhile p cs).head? = some c ∨ (stripWhile p cs).getLast? = some c) : p c = false := by
  rw [stripWhile_eq] at h
  rcases h with h | h
  · have hhead := head?_dropWhile_not p cs
    obtain ⟨rest, hrest⟩ := rdropWhile_prefix p (l := cs.dropWhile p)
    rw [← hrest, head?_append, h] at hhead
    exact hhead
  · obtain ⟨hne, rfl⟩ := mem_getLast?_eq_getLast h
    exact Bool.eq_false_iff.mpr (rdropWhile_last_not p _ hne)

end Text

namespace Options
open Float.Model (UnpackedFloat)

def wholes : List String := ["HYPERIAN_WHILE_LIMIT", "HYPERIAN_TILE_SIZE"]

/-- The value of a variable cannot be read, is blank, or is not above zero. -/
def IsRefused (name text : String) : Prop :=
  name ∈ wholes ∧ (∀ n, int? text = some n → n ≤ 0) ∨
    name = "HYPERIAN_DB" ∧ (∀ c ∈ text.toList, Text.isBlank c = true) ∨
    name = "HYPERIAN_HTTP_TIMEOUT" ∧ ∀ x, float? text = some x → x ≤ 0

/-- The settings are usable, and each is from its variable or the default. -/
structure Usable (env : String → Option String) (o : Options) : Prop where
  whileLimit : 0 < o.whileLimit ∧
    (env "HYPERIAN_WHILE_LIMIT").elim (o.whileLimit = 10000) (int? · = some o.whileLimit)
  tileSize : 0 < o.tileSize ∧
    (env "HYPERIAN_TILE_SIZE").elim (o.tileSize = 32) (int? · = some o.tileSize)
  databasePath : o.databasePath ≠ "" ∧ (∀ c, o.databasePath.toList.head? = some c ∨
      o.databasePath.toList.getLast? = some c → Text.isBlank c = false) ∧
    (env "HYPERIAN_DB").elim (o.databasePath = "hyperianlang.db") (Text.trim · = o.databasePath)
  moduleFolder : o.moduleFolder = env "HYPERIAN_MODULE_DIR"
  httpTimeout : (0 < o.httpTimeout ∨ o.httpTimeout.isNaN = true) ∧
    (env "HYPERIAN_HTTP_TIMEOUT").elim (o.httpTimeout = 10) (float? · = some o.httpTimeout)

/-! ### Readers -/

variable {name text : String} {f : OptionFault}

theorem positive_eq_ok_iff {n : Int} : positive name text = .ok n ↔ int? text = some n ∧ 0 < n := by
  unfold positive
  cases int? text with
  | none => simp
  | some m => by_cases h : m ≤ 0 <;> simp [h] <;> omega

theorem trim_eq_empty_iff :
    Text.trim text = "" ↔ ∀ c ∈ text.toList, Text.isBlank c = true := by
  rw [← Text.stripWhile_eq_nil_iff, Text.trim, ← String.toList_inj, String.toList_ofList]
  rfl

theorem path_eq_ok_iff {p : String} :
    path name text = .ok p ↔ Text.trim text = p ∧ ¬∀ c ∈ text.toList, Text.isBlank c = true := by
  rw [path, ← trim_eq_empty_iff, ← String.isEmpty_iff]
  split <;> simp_all

theorem not_le_zero_iff (x : Float) : ¬x ≤ 0 ↔ 0 < x ∨ x.isNaN = true := by
  have hzero : (0 : Float).toModel.unpack = .zero .positive := rfl
  have hle : x ≤ 0 ↔ x.toModel.unpack.le (.zero .positive) = true := by
    rw [← hzero]
    exact decide_eq_true_iff
  have hlt : 0 < x ↔ UnpackedFloat.lt (.zero .positive) x.toModel.unpack = true := by
    rw [← hzero]
    exact decide_eq_true_iff
  rw [hle, hlt, show x.isNaN = x.toModel.unpack.isNaN from rfl]
  cases x.toModel.unpack with
  | notANumber => decide
  | infinity s => cases s <;> decide
  | zero s => cases s <;> decide
  | finite s m e hm =>
    cases s with
    | positive => exact ⟨fun _ => .inl rfl, fun _ => Bool.false_ne_true⟩
    | negative => exact ⟨absurd rfl, fun h => absurd (or_self_iff.mp h) Bool.false_ne_true⟩

theorem seconds_eq_ok_iff {x : Float} :
    seconds name text = .ok x ↔ float? text = some x ∧ ¬x ≤ 0 := by
  unfold seconds
  cases float? text with
  | none => simp
  | some y =>
    dsimp only
    split <;> grind

/-! ### The environment -/

section Setting
variable {α : Type} {env : String → Option String} {default a : α}
  {read : String → String → Except OptionFault α}

theorem setting_eq_ok_iff : setting env name read default = .ok a ↔
    (env name).elim (a = default) (read name · = .ok a) := by
  unfold setting
  cases env name with
  | none => simp [eq_comm]
  | some text => rfl

theorem setting_eq_error_iff : setting env name read default = .error f ↔
    ∃ text, env name = some text ∧ read name text = .error f := by
  unfold setting
  cases env name <;> simp

end Setting

variable {env : String → Option String} {o : Options}

theorem ofEnvironment_cases (env : String → Option String) :
    (∃ o, ofEnvironment env = .ok o ∧ o.moduleFolder = env "HYPERIAN_MODULE_DIR" ∧
      setting env "HYPERIAN_WHILE_LIMIT" positive 10000 = .ok o.whileLimit ∧
      setting env "HYPERIAN_TILE_SIZE" positive 32 = .ok o.tileSize ∧
      setting env "HYPERIAN_DB" path "hyperianlang.db" = .ok o.databasePath ∧
      setting env "HYPERIAN_HTTP_TIMEOUT" seconds 10 = .ok o.httpTimeout) ∨
    ∃ f, ofEnvironment env = .error f ∧
      (setting env "HYPERIAN_WHILE_LIMIT" positive 10000 = .error f ∨
      setting env "HYPERIAN_TILE_SIZE" positive 32 = .error f ∨
      setting env "HYPERIAN_DB" path "hyperianlang.db" = .error f ∨
      setting env "HYPERIAN_HTTP_TIMEOUT" seconds 10 = .error f) := by
  unfold ofEnvironment
  dsimp only
  generalize setting env "HYPERIAN_WHILE_LIMIT" positive 10000 = whileLimit
  generalize setting env "HYPERIAN_TILE_SIZE" positive 32 = tileSize
  generalize setting env "HYPERIAN_DB" path "hyperianlang.db" = databasePath
  generalize setting env "HYPERIAN_HTTP_TIMEOUT" seconds 10 = httpTimeout
  cases whileLimit with
  | error f => exact .inr ⟨f, rfl, .inl rfl⟩
  | ok whileLimit =>
    cases tileSize with
    | error f => exact .inr ⟨f, rfl, .inr (.inl rfl)⟩
    | ok tileSize =>
      cases databasePath with
      | error f => exact .inr ⟨f, rfl, .inr (.inr (.inl rfl))⟩
      | ok databasePath =>
        cases httpTimeout with
        | error f => exact .inr ⟨f, rfl, .inr (.inr (.inr rfl))⟩
        | ok httpTimeout => exact .inl ⟨_, rfl, rfl, rfl, rfl, rfl, rfl⟩

theorem positive_of_setting {n default : Int} (hdefault : 0 < default)
    (h : setting env name positive default = .ok n) :
    0 < n ∧ (env name).elim (n = default) (int? · = some n) := by
  rw [setting_eq_ok_iff] at h
  cases henv : env name with
  | none =>
    obtain rfl : n = default := by simpa [henv] using h
    exact ⟨hdefault, rfl⟩
  | some text =>
    rw [henv] at h
    exact (positive_eq_ok_iff.mp h).symm

theorem path_of_setting {p : String}
    (h : setting env "HYPERIAN_DB" path "hyperianlang.db" = .ok p) :
    p ≠ "" ∧ (∀ c, p.toList.head? = some c ∨ p.toList.getLast? = some c →
        Text.isBlank c = false) ∧
      (env "HYPERIAN_DB").elim (p = "hyperianlang.db") (Text.trim · = p) := by
  have hends {text : String} (htrim : Text.trim text = p) (c : Char)
      (hc : p.toList.head? = some c ∨ p.toList.getLast? = some c) : Text.isBlank c = false := by
    rw [← htrim, Text.trim, String.toList_ofList] at hc
    exact Text.eq_false_of_end_stripWhile hc
  rw [setting_eq_ok_iff] at h
  cases henv : env "HYPERIAN_DB" with
  | none =>
    obtain rfl : p = "hyperianlang.db" := by simpa [henv] using h
    exact ⟨by decide, @hends "hyperianlang.db" (by decide), rfl⟩
  | some text =>
    rw [henv] at h
    obtain ⟨htrim, hblank⟩ := path_eq_ok_iff.mp h
    exact ⟨fun hempty => hblank (trim_eq_empty_iff.mp (htrim.trans hempty)), hends htrim, htrim⟩

theorem seconds_of_setting {x : Float}
    (h : setting env "HYPERIAN_HTTP_TIMEOUT" seconds 10 = .ok x) :
    (0 < x ∨ x.isNaN = true) ∧
      (env "HYPERIAN_HTTP_TIMEOUT").elim (x = 10) (float? · = some x) := by
  rw [setting_eq_ok_iff] at h
  cases henv : env "HYPERIAN_HTTP_TIMEOUT" with
  | none =>
    obtain rfl : x = 10 := by simpa [henv] using h
    exact ⟨.inl (by decide), rfl⟩
  | some text =>
    rw [henv] at h
    obtain ⟨hread, hle⟩ := seconds_eq_ok_iff.mp h
    exact ⟨(not_le_zero_iff x).mp hle, hread⟩

/-- An environment is refused if a variable in it is, and otherwise gives usable settings. The
    number of seconds is positive, or undefined. -/
theorem ofEnvironment_usable (env : String → Option String) :
    match ofEnvironment env with
    | .ok o => Usable env o ∧ ∀ name text, env name = some text → ¬IsRefused name text
    | .error _ => ∃ name text, env name = some text ∧ IsRefused name text := by
  rcases ofEnvironment_cases env with ⟨o, ho, hfolder, hlimit, htile, hpath, htimeout⟩ | ⟨f, hf, h⟩
  · rw [ho]
    refine ⟨⟨positive_of_setting (by decide) hlimit, positive_of_setting (by decide) htile,
      path_of_setting hpath, hfolder, seconds_of_setting htimeout⟩, fun name text htext => ?_⟩
    have hwhole {n default : Int} (h : setting env name positive default = .ok n)
        (hle : ∀ n, int? text = some n → n ≤ 0) : False := by
      rw [setting_eq_ok_iff, htext] at h
      obtain ⟨hread, hpos⟩ := positive_eq_ok_iff.mp h
      exact Int.not_lt.mpr (hle n hread) hpos
    rintro (⟨hname, h⟩ | ⟨rfl, h⟩ | ⟨rfl, h⟩)
    · simp only [wholes, mem_cons, not_mem_nil, or_false] at hname
      rcases hname with rfl | rfl
      · exact hwhole hlimit h
      · exact hwhole htile h
    · rw [setting_eq_ok_iff, htext] at hpath
      exact (path_eq_ok_iff.mp hpath).2 h
    · rw [setting_eq_ok_iff, htext] at htimeout
      obtain ⟨hread, hle⟩ := seconds_eq_ok_iff.mp htimeout
      exact hle (h _ hread)
  · rw [hf]
    simp only [setting_eq_error_iff] at h
    have hwhole {name text : String} (hname : name ∈ wholes) (h : positive name text = .error f) :
        IsRefused name text := by
      refine .inl ⟨hname, fun n hn => Int.not_lt.mp fun hpos => ?_⟩
      cases (positive_eq_ok_iff.mpr ⟨hn, hpos⟩).symm.trans h
    rcases h with ⟨text, htext, h⟩ | ⟨text, htext, h⟩ | ⟨text, htext, h⟩ | ⟨text, htext, h⟩
    · exact ⟨_, text, htext, hwhole (by decide) h⟩
    · exact ⟨_, text, htext, hwhole (by decide) h⟩
    · refine ⟨_, text, htext, .inr (.inl ⟨rfl, by_contra fun hblank => ?_⟩)⟩
      cases (path_eq_ok_iff.mpr ⟨rfl, hblank⟩).symm.trans h
    · refine ⟨_, text, htext, .inr (.inr ⟨rfl, fun x hx => by_contra fun hle => ?_⟩)⟩
      cases (seconds_eq_ok_iff.mpr ⟨hx, hle⟩).symm.trans h

/-- An undefined number of seconds is not refused. -/
theorem ofEnvironment_undefined :
    ∃ o, (ofEnvironment fun name => if name = "HYPERIAN_HTTP_TIMEOUT" then some "nan" else none) =
      .ok o ∧ ¬0 < o.httpTimeout :=
  ⟨{ httpTimeout := Binary.nan }, by rfl, by decide⟩

end Options
end Parlance
