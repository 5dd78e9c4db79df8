import Mathlib.Data.List.Basic
import Parlance.Proofs.AlikeExec

/-!
# What Is in a File

Writing puts a file where its path leads and takes no folder away, so reading and appending find it.
The bytes come back as they were written, and so do the characters, but a text is read with a line
feed for every line end: a carriage return does not come back.

For a path that ends in a slash, writing passes the slash over and appending does not, so nothing is
appended there.

## Main definitions

* `Node.Covers`: Every folder of the first node is a folder of the second one, with all its
  entries.
* `Files.Contains`: The path leads to a file with the contents.
* `Session.disk`: Where the session runs, and the files there.
* `Run.Appended`: The session appended the texts to the file, one statement for each.
* `Run.appended`: What a file holds after texts were appended to it.

## Theorems

* `Node.covers_put`: A file can take no folder's place, so all folders stay.
* `Files.filePlace_eq_ok`: The path of a file ends in a name, and the folder before the name is
  there.
* `Files.Contains.append`: One more text in a file.
* `Run.files_give_back`: A text that was written to a file is read back from it, with the texts
  that were appended since and a line feed after each.
-/

namespace Parlance
namespace Node
variable {n n' : Node} {name : String} {es : List (String × Node)}

theorem lookup_setEntry (name x : String) (m : Node) (es : List (String × Node)) :
    (setEntry name (some m) es).lookup x = if x = name then some m else es.lookup x := by
  induction es with
  | nil => grind [setEntry]
  | cons e rest ih => grind [setEntry]

theorem at?_cons_eq_some {x : String} {q : List String} :
    n.at? (x :: q) = some n' ↔ ∃ c, n.child? x = some c ∧ c.at? q = some n' := by
  rw [at?]
  cases n.child? x <;> simp

theorem at?_append (n : Node) (p q : List String) : n.at? (p ++ q) = (n.at? p).bind (·.at? q) := by
  induction p generalizing n with
  | nil => rfl
  | cons x p ih =>
    rw [List.cons_append, at?, at?]
    cases n.child? x with
    | none => rfl
    | some c => exact ih c

/-- Every folder of the first node is a folder of the second one, with all its entries. -/
def Covers (n n' : Node) : Prop :=
  ∀ q es, n.at? q = some (.folder es) →
    ∃ es', n'.at? q = some (.folder es') ∧ ∀ x, (es.lookup x).isSome → (es'.lookup x).isSome

theorem Covers.refl : Covers n n := fun _ es h => ⟨es, h, fun _ => id⟩

theorem covers_of_not_folder (hn : ∀ es, n ≠ .folder es) : Covers n n' := by
  cases n with
  | file contents => rintro (_ | ⟨x, q⟩) es h <;> cases h
  | folder es => exact absurd rfl (hn es)

theorem covers_setEntry {m : Node} (h : ∀ c, es.lookup name = some c → Covers c m) :
    Covers (.folder es) (.folder (setEntry name (some m) es)) := by
  rintro (_ | ⟨x, q⟩) fs hfs
  · cases hfs
    refine ⟨_, rfl, fun x hx => ?_⟩
    rw [lookup_setEntry]
    split
    · rfl
    · exact hx
  · obtain ⟨c, hc, hfs⟩ := at?_cons_eq_some.mp hfs
    rw [at?, child?, lookup_setEntry]
    by_cases hx : x = name
    · rw [if_pos hx]
      exact h c (hx ▸ hc) q fs hfs
    · rw [if_neg hx, show es.lookup x = some c from hc]
      exact ⟨fs, hfs, fun _ => id⟩

/-- A file can take no folder's place, so all folders stay. -/
theorem covers_put (contents : ByteArray) (place : List String)
    (hplace : ∀ es, n.at? place ≠ some (.folder es)) :
    Covers n (n.put (some (.file contents)) place) := by
  fun_induction put (some (Node.file contents)) place n with
  | case1 n => exact covers_of_not_folder fun es hes => hplace es (congrArg some hes)
  | case2 name entries =>
    refine covers_setEntry fun c hc => covers_of_not_folder fun es hes => hplace es ?_
    rw [at?, child?, hc, hes]
    rfl
  | case4 name rest entries _ c hc ih =>
    refine covers_setEntry fun c' hc' => ?_
    cases hc.symm.trans hc'
    refine ih fun es hes => hplace es ?_
    rw [at?, child?, hc]
    exact hes
  | case3 | case5 => exact .refl

theorem at?_put {m : Node} {place : List String} (hplace : n.at? place = some (.folder es)) :
    (n.put (some m) (place ++ [name])).at? (place ++ [name]) = some m := by
  induction place generalizing n with
  | nil =>
    cases hplace
    rw [List.nil_append, put, at?, child?, lookup_setEntry, if_pos rfl]
    rfl
  | cons x place ih =>
    cases n with
    | file contents => cases hplace
    | folder entries =>
      obtain ⟨c, hc, hplace⟩ := at?_cons_eq_some.mp hplace
      rw [List.cons_append, put, show entries.lookup x = some c from hc]
      · rw [at?, child?, lookup_setEntry, if_pos rfl]
        exact ih hplace
      · simp

end Node

namespace Files
variable {root root' : Node} {here there steps : List String}

theorem walk_cons_eq_ok {step : String} :
    walk root here (step :: steps) = .ok there ↔ ∃ es, root.at? here = some (.folder es) ∧
      (step = ".." ∧ walk root here.dropLast steps = .ok there ∨
        step ≠ ".." ∧ step.utf8ByteSize ≤ maxName ∧ (es.lookup step).isSome ∧
          walk root (here ++ [step]) steps = .ok there) := by
  rw [walk]
  split <;> grind

theorem walk_concat {name : String} {es : List (String × Node)}
    (hwalk : walk root here steps = .ok there) (hthere : root.at? there = some (.folder es))
    (hup : name ≠ "..") (hlong : name.utf8ByteSize ≤ maxName) (hname : (es.lookup name).isSome) :
    walk root here (steps ++ [name]) = .ok (there ++ [name]) := by
  induction steps generalizing here with
  | nil =>
    cases hwalk
    exact walk_cons_eq_ok.mpr ⟨es, hthere, .inr ⟨hup, hlong, hname, rfl⟩⟩
  | cons step rest ih =>
    obtain ⟨fs, hfs, hstep⟩ := walk_cons_eq_ok.mp hwalk
    refine walk_cons_eq_ok.mpr ⟨fs, hfs, hstep.imp ?_ ?_⟩
    · exact fun ⟨hup, hrest⟩ => ⟨hup, ih hrest⟩
    · exact fun ⟨hup, hshort, hlookup, hrest⟩ => ⟨hup, hshort, hlookup, ih hrest⟩

theorem walk_of_covers (h : root.Covers root') (hwalk : walk root here steps = .ok there) :
    walk root' here steps = .ok there := by
  induction steps generalizing here with
  | nil => exact hwalk
  | cons step rest ih =>
    obtain ⟨es, hes, hstep⟩ := walk_cons_eq_ok.mp hwalk
    obtain ⟨es', hes', hentries⟩ := h here es hes
    refine walk_cons_eq_ok.mpr ⟨es', hes', hstep.imp ?_ ?_⟩
    · exact fun ⟨hup, hrest⟩ => ⟨hup, ih hrest⟩
    · exact fun ⟨hup, hshort, hlookup, hrest⟩ => ⟨hup, hshort, hentries _ hlookup, ih hrest⟩

variable {f f' : Files} {path : String} {place : List String} {bytes : ByteArray}

/-- The path of a file ends in a name, and the folder before the name is there. -/
theorem filePlace_eq_ok : f.filePlace path = .ok place ↔ ∃ parent name es,
    Path.name? path = some name ∧ name.utf8ByteSize ≤ maxName ∧
      walk f.root (f.base path) (Path.parts path).dropLast = .ok parent ∧
      f.root.at? parent = some (.folder es) ∧ parent ++ [name] = place := by
  unfold filePlace target entryPlace
  cases Path.name? path with
  | none => cases f.locate path <;> simp [bind, Except.bind, throw, throwThe, MonadExceptOf.throw]
  | some name =>
    cases walk f.root (f.base path) (Path.parts path).dropLast with
    | error fault => simp [bind, Except.bind]
    | ok parent =>
      rcases hparent : f.root.at? parent with _ | _ | es
      · simp [bind, Except.bind, hparent]
      · simp [bind, Except.bind, hparent]
      · by_cases hlong : maxName < name.utf8ByteSize
        · simp [bind, Except.bind, hparent, hlong, Nat.not_le.mpr hlong]
        · simp [bind, Except.bind, pure, Except.pure, hparent, hlong, Nat.not_lt.mp hlong]

/-- The path leads to a file with the contents. -/
def Contains (f : Files) (path : String) (bytes : ByteArray) : Prop :=
  ∃ place, f.filePlace path = .ok place ∧ f.root.at? place = some (.file bytes)

theorem contains_put (h : f.filePlace path = .ok place)
    (hplace : ∀ es, f.root.at? place ≠ some (.folder es)) (bytes : ByteArray) :
    (f.put place (some (.file bytes))).Contains path bytes := by
  have hcovers := Node.covers_put bytes place hplace
  obtain ⟨parent, name, es, hname, hlong, hwalk, hparent, rfl⟩ := filePlace_eq_ok.mp h
  obtain ⟨es', hparent', -⟩ := hcovers _ _ hparent
  refine ⟨_, filePlace_eq_ok.mpr ⟨parent, name, es', hname, hlong, ?_, hparent', rfl⟩,
    Node.at?_put hparent⟩
  exact walk_of_covers hcovers hwalk

theorem contains_of_write (h : f.write path bytes = .ok f') : f'.Contains path bytes := by
  unfold write at h
  cases hplace : f.filePlace path with
  | error fault =>
    rw [hplace] at h
    cases h
  | ok place =>
    rw [hplace] at h
    change f.store place bytes false = .ok f' at h
    unfold store at h
    split at h
    · cases h
    all_goals
      rename_i hat
      cases h
      exact contains_put hplace (by simp [hat]) bytes

theorem Contains.read_eq (h : f.Contains path bytes) : f.read path = .ok bytes := by
  obtain ⟨place, hplace, hat⟩ := h
  obtain ⟨parent, name, es, hname, hlong, hwalk, hparent, rfl⟩ := filePlace_eq_ok.mp hplace
  obtain ⟨hlast, hup⟩ := Option.filter_eq_some_iff.mp hname
  have hentry : (es.lookup name).isSome := by
    rw [Node.at?_append, hparent] at hat
    obtain ⟨c, hc, -⟩ := Node.at?_cons_eq_some.mp hat
    exact Option.isSome_of_eq_some hc
  have hlocate : f.locate path = .ok (parent ++ [name]) := by
    rw [locate, ← List.dropLast_append_getLast? _ hlast]
    exact walk_concat hwalk hparent (by simpa using hup) hlong hentry
  rw [read, node, hlocate]
  dsimp only [bind, Except.bind]
  rw [hat]
  rfl

/-- One more text in a file. A path that asks for a folder is refused. -/
theorem Contains.append (h : f.Contains path bytes) (more : ByteArray) :
    if Path.asksForFolder path then f.append path more = .error .notFolder
    else ∃ f', f.append path more = .ok f' ∧ f'.Contains path (bytes ++ more) := by
  obtain ⟨place, hplace, hat⟩ := h
  have hpath : path ≠ "" := by
    rintro rfl
    obtain ⟨_, _, _, hname, -⟩ := filePlace_eq_ok.mp hplace
    cases hname
  split <;> rename_i hasks
  · rw [Files.append, if_neg (by simpa using hpath), hplace]
    dsimp only [bind, Except.bind]
    rw [if_pos hasks, hat]
    rfl
  · refine ⟨f.put place (some (.file (bytes ++ more))), ?_, contains_put hplace (by simp [hat]) _⟩
    rw [Files.append, if_neg (by simpa using hpath), hplace]
    dsimp only [bind, Except.bind]
    rw [if_neg hasks, store, hat]
    rfl

end Files

/-! ### Texts in files -/

theorem decodeText_toUTF8 (t : String) : decodeText t.toUTF8 = some t := dif_pos t.isValidUTF8

theorem unifyLines_eq_self {cs : List Char} : unifyLines cs = cs ↔ '\r' ∉ cs := by
  fun_induction unifyLines cs with
  | case1 => simp
  | case2 rest ih => simp
  | case3 rest _ ih => simp
  | case4 c rest _ hc ih => simp [ih, Ne.symm hc]

/-- Where the session runs, and the files there. -/
def Session.disk (s : Session) : MachineHost × Files := (s.hosts.machine, s.hosts.files)

namespace Run
variable {L : Linker} {s s₁ s₂ s' : Session} {f f' : Files} {p t text : String}
  {path contents : Expr} {pos : Position}

theorem run_machine (hs : s.hosts.machine = .here) : machine.run s = (.ok s.hosts, s) := by
  refine (bind_ok (run_get s)).trans ?_
  dsimp only
  rw [hs]
  rfl

theorem run_files (hdisk : s.disk = (.here, f)) : files.run s = (.ok f, s) := by
  obtain ⟨hmachine, rfl⟩ := Prod.mk.inj hdisk
  exact bind_ok (run_machine hmachine)

theorem disk_of_files (h : files.run s = (.ok f, s')) : s' = s ∧ s.disk = (.here, f) := by
  cases hmachine : s.hosts.machine with
  | here =>
    cases h.symm.trans (run_files (Prod.ext hmachine rfl))
    exact ⟨rfl, Prod.ext hmachine rfl⟩
  | absent | bare =>
    have hfail : machine.run s = (.error (.defect .notProvided), s) := by
      refine (bind_ok (run_get s)).trans ?_
      dsimp only
      rw [hmachine]
      rfl
    cases h.symm.trans (bind_error hfail)

theorem run_hasMachine (op : String) (hdisk : s.disk = (.here, f)) :
    (hasMachine op).run s = (.ok true, s) := by
  have hthere : (s.hosts.machine != .absent) = true := by
    rw [(Prod.mk.inj hdisk).1]
    rfl
  refine (bind_ok (run_get s)).trans ?_
  dsimp only
  rw [if_pos hthere]
  rfl

theorem run_checkPath (hp : p.toList.contains '\x00' = false) (s : Session) :
    (checkPath p).run s = (.ok (), s) := by
  rw [checkPath, hp]
  rfl

theorem run_changeFiles {op : String} {change : Files → Except FileFault Files}
    (hdisk : s.disk = (.here, f)) (hp : p.toList.contains '\x00' = false) :
    (changeFiles op p change).run s = match change f with
      | .ok f' => (.ok (), { s with hosts := { s.hosts with files := f' } })
      | .error fault => (fileFail op p fault).run s := by
  refine (bind_ok (run_files hdisk)).trans ((bind_ok (run_checkPath hp s)).trans ?_)
  cases change f <;> rfl

/-- Only a machine has files, and only a path without the character NUL can name one. -/
theorem contains_of_writeText (h : (writeText p t false).run s = (.ok (), s')) :
    p.toList.contains '\x00' = false ∧ ∃ f', s'.disk = (.here, f') ∧ f'.Contains p t.toUTF8 := by
  obtain ⟨f, s₁, hfiles, hrest⟩ := ok_of_bind h
  obtain ⟨rfl, hdisk⟩ := disk_of_files hfiles
  have hp : p.toList.contains '\x00' = false := by
    obtain ⟨_, _, hcheck, -⟩ := ok_of_bind hrest
    unfold checkPath at hcheck
    split at hcheck
    · cases hcheck
    · rename_i hp
      simpa using hp
  rw [writeText, run_changeFiles hdisk hp, if_neg (by decide)] at h
  cases hwrite : f.write p t.toUTF8 with
  | error fault =>
    rw [hwrite] at h
    cases h
  | ok f' =>
    rw [hwrite] at h
    cases h
    exact ⟨hp, f', Prod.ext (Prod.mk.inj hdisk).1 rfl, Files.contains_of_write hwrite⟩

theorem run_orWarn_ok {act otherwise : Run Unit} (h : act.run s = (.ok (), s')) :
    (orWarn act otherwise).run s = (.ok (), s') :=
  bind_ok (by rw [run_attempt, h])

theorem run_orWarn_fileFail {act : Run Unit} {op : String} {fault : FileFault}
    (h : act.run s = (fileFail op p fault).run s') :
    ∃ message, (orWarn act (pure ())).run s = (.ok (), s'.warned message) :=
  ⟨_, (bind_ok (by rw [run_attempt, h]; rfl)).trans rfl⟩

theorem run_writeFile {append : Bool} (hdisk : s.disk = (.here, f))
    (h : (orWarn (do
      let p ← evalText L path
      writeText p (← evalText L contents) append) (pure ())).run { s with position := some pos } =
        (.ok (), s')) :
    (exec L (.command pos (.system (.writeFile path contents append)))).run s =
      (.ok .normal, s') := by
  have hthere := run_hasMachine (s := { s with position := some pos }) "write file" hdisk
  exact run_placing_ok (run_normally_ok ((bind_ok hthere).trans h))

/-- One more statement that appends. A path that asks for a folder gets a warning only. -/
theorem run_appendFile (hdisk : s.disk = (.here, f)) (hf : f.Contains p text.toUTF8)
    (hp : p.toList.contains '\x00' = false)
    (hpath : (evalText L path).run { s with position := some pos } = (.ok p, s₁))
    (hcontents : (evalText L contents).run s₁ = (.ok t, s₂)) (hsame : s₂.disk = s.disk) :
    ∃ f' s', (exec L (.command pos (.system (.writeFile path contents true)))).run s =
        (.ok .normal, s') ∧ s'.disk = (.here, f') ∧
      f'.Contains p (if Path.asksForFolder p then text else text ++ t ++ "\n").toUTF8 := by
  have hdisk₂ : s₂.disk = (.here, f) := hsame.trans hdisk
  have hact : (do
      let p ← evalText L path
      writeText p (← evalText L contents) true : Run Unit).run { s with position := some pos } =
      (writeText p t true).run s₂ := (bind_ok hpath).trans (bind_ok hcontents)
  have happend := hf.append (t ++ "\n").toUTF8
  rw [writeText, run_changeFiles hdisk₂ hp, if_pos rfl] at hact
  split at happend <;> rename_i hasks
  · rw [happend] at hact
    obtain ⟨message, hwarn⟩ := run_orWarn_fileFail hact
    rw [if_pos hasks]
    exact ⟨f, _, run_writeFile hdisk hwarn, hdisk₂, hf⟩
  · obtain ⟨f', happend, hf'⟩ := happend
    rw [happend] at hact
    refine ⟨f', _, run_writeFile hdisk (run_orWarn_ok hact), Prod.ext (Prod.mk.inj hdisk₂).1 rfl, ?_⟩
    rw [if_neg hasks, String.append_assoc, String.toUTF8, String.toByteArray_append]
    exact hf'

theorem run_readText (hdisk : s.disk = (.here, f)) (hf : f.Contains p text.toUTF8)
    (hp : p.toList.contains '\x00' = false) :
    (readText p).run s = (.ok (String.ofList (unifyLines text.toList)), s) := by
  have hbytes : (readBytes p).run s = (.ok text.toUTF8, s) := by
    refine (bind_ok (run_files hdisk)).trans ((bind_ok (run_checkPath hp s)).trans ?_)
    rw [hf.read_eq]
    rfl
  refine (bind_ok hbytes).trans ?_
  rw [decode, decodeText_toUTF8]
  rfl

/-- The session appended the texts to the file, one statement for each. Between the statements
    anything may happen that leaves the files alone. -/
inductive Appended (L : Linker) (p : String) : List String → Session → Session → Prop
  | none {s s' : Session} (hsame : s'.disk = s.disk) : Appended L p [] s s'
  | append {ts : List String} {t : String} {s s₁ s₂ s₃ s' : Session} {path contents : Expr}
    (pos : Position) (h : Appended L p ts s s₁)
    (hpath : (evalText L path).run { s₁ with position := some pos } = (.ok p, s₂))
    (hcontents : (evalText L contents).run s₂ = (.ok t, s₃)) (hsame : s₃.disk = s₁.disk)
    (hafter : s'.disk =
      ((exec L (.command pos (.system (.writeFile path contents true)))).run s₁).2.disk) :
    Appended L p (ts ++ [t]) s s'

/-- What a file holds after texts were appended to it. -/
def appended (p t : String) (ts : List String) : String :=
  if Path.asksForFolder p then t else ts.foldl (fun text t => text ++ t ++ "\n") t

theorem Appended.contains {ts : List String} (h : Appended L p ts s s')
    (hp : p.toList.contains '\x00' = false) (hdisk : s.disk = (.here, f))
    (hf : f.Contains p t.toUTF8) :
    ∃ f', s'.disk = (.here, f') ∧ f'.Contains p (appended p t ts).toUTF8 := by
  induction h with
  | none hsame =>
    refine ⟨f, hsame.trans hdisk, ?_⟩
    rw [appended, List.foldl_nil, ite_self]
    exact hf
  | append pos h hpath hcontents hsame hafter ih =>
    -- The texts before have left the file there, so one more statement finds it.
    obtain ⟨f', hdisk', hf'⟩ := ih hdisk
    obtain ⟨f'', _, hrun, hdisk'', hf''⟩ := run_appendFile hdisk' hf' hp hpath hcontents hsame
    refine ⟨f'', by rw [hafter, hrun]; exact hdisk'', ?_⟩
    rw [appended, List.foldl_concat]
    unfold appended at hf''
    split at hf'' <;> simpa [*] using hf''

/-- A text that was written to a file is read back from it, with the texts that were appended
    since and a line feed after each. It comes back as it is exactly if there is no carriage
    return in it: every line end is read as a line feed. If the path asks for a folder, the
    file is written nevertheless, and nothing is appended to it. -/
theorem files_give_back (L : Linker) (pos pos' : Position) (path contents path' : Expr)
    (p t out : String) (ts : List String) (s s₁ s₂ s₃ s₄ s₅ : Session)
    (hmachine : s.hosts.machine = .here)
    (hpath : (evalText L path).run { s with position := some pos } = (.ok p, s₁))
    (hcontents : (evalText L contents).run s₁ = (.ok t, s₂))
    (hwrite : (writeText p t false).run s₂ = (.ok (), s₃)) (happended : Appended L p ts s₃ s₄)
    (hpath' : (evalText L path').run { s₄ with position := some pos' } = (.ok p, s₅))
    (hsame : s₅.disk = s₄.disk) :
    (exec L (.command pos (.system (.writeFile path contents false)))).run s =
        (.ok .normal, s₃) ∧
      ∃ v, (exec L (.command pos' (.system (.readFile path' (some out))))).run s₄ =
          (.ok .normal, { s₅ with bag := s₅.bag.insert out (.text v) }) ∧
        v.toList = unifyLines (appended p t ts).toList ∧
        (v = appended p t ts ↔ '\r' ∉ (appended p t ts).toList) := by
  have hdisk : s.disk = (.here, s.hosts.files) := Prod.ext hmachine rfl
  obtain ⟨hp, f, hdisk₃, hf⟩ := contains_of_writeText hwrite
  obtain ⟨f', hdisk₄, hf'⟩ := happended.contains hp hdisk₃ hf
  refine ⟨?_, _, ?_, String.toList_ofList, ?_⟩
  · refine run_writeFile hdisk (run_orWarn_ok ?_)
    exact (bind_ok hpath).trans ((bind_ok hcontents).trans hwrite)
  · have hthere := run_hasMachine (s := { s₄ with position := some pos' }) "read file" hdisk₄
    have hread := run_readText (hsame.trans hdisk₄) hf' hp
    refine run_placing_ok (run_normally_ok ((bind_ok hthere).trans (run_orWarn_ok ?_)))
    refine (bind_ok hpath').trans ((bind_ok hread).trans rfl)
  · rw [← unifyLines_eq_self, ← String.toList_inj, String.toList_ofList]

/-- A note is written and then continued. -/
theorem files_give_back_note :
    let s : Session := { hosts := { machine := .here, files := ⟨.folder [], []⟩ } }
    ∃ s₃ s₄ v, (exec .full (.command ⟨1, 1⟩ (.system
          (.writeFile (.text ⟨1, 12⟩ "f") (.text ⟨1, 21⟩ "é") false)))).run s = (.ok .normal, s₃) ∧
      s₄ = ((exec .full (.command ⟨2, 1⟩ (.system
          (.writeFile (.text ⟨2, 16⟩ "f") (.text ⟨2, 25⟩ "b") true)))).run s₃).2 ∧
      (exec .full (.command ⟨3, 1⟩ (.system (.readFile (.text ⟨3, 11⟩ "f") (some "v"))))).run s₄ =
        (.ok .normal, { s₄ with position := some ⟨3, 1⟩, bag := s₄.bag.insert "v" (.text v) }) ∧
      v = "é" ++ "b" ++ "\n" := by
  intro s
  have heval (s : Session) (pos : Position) :
      (evalText .full (.text pos "f")).run s = (.ok "f", s) ∧
      (evalText .full (.text pos "é")).run s = (.ok "é", s) ∧
      (evalText .full (.text pos "b")).run s = (.ok "b", s) := ⟨rfl, rfl, rfl⟩
  have hplace : s.hosts.files.filePlace "f" = .ok ["f"] := rfl
  let s₂ : Session := { s with position := some ⟨1, 1⟩ }
  let s₃ : Session := { s₂ with
    hosts := { s₂.hosts with files := s.hosts.files.put ["f"] (some (.file "é".toUTF8)) } }
  have hwrite : (writeText "f" "é" false).run s₂ = (.ok (), s₃) := by
    rw [writeText, run_changeFiles (f := s.hosts.files) rfl rfl, if_neg (by decide), Files.write,
      hplace]
    rfl
  obtain ⟨hfirst, v, hread, -, hv⟩ := files_give_back .full ⟨1, 1⟩ ⟨3, 1⟩ (.text ⟨1, 12⟩ "f")
    (.text ⟨1, 21⟩ "é") (.text ⟨3, 11⟩ "f") "f" "é" "v" ["b"] s s₂ s₂ s₃ _ _ rfl
    (heval ..).1 (heval ..).2.1 hwrite
    (.append ⟨2, 1⟩ (.none rfl) (heval _ ⟨2, 16⟩).1 (heval _ ⟨2, 25⟩).2.2 rfl rfl)
    (heval ..).1 rfl
  exact ⟨s₃, _, v, hfirst, rfl, hread, hv.mpr (by decide)⟩

end Run
end Parlance
