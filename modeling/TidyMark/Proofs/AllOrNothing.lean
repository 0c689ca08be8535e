import Mathlib.Tactic.SplitIfs
import TidyMark.CommandLine.World

/-!
# Runs are all or nothing

A run that fails prints nothing and leaves the files as they are, and one that succeeds gives its
result to one output only (`run_allOrNothing`). This holds on any host whose operations treat the
files as they should (`KeepsFiles`), however and whenever they fail: everything that can fail comes
before the only write. The world of a standard input and files is such a host (`keepsFiles_world`).
-/

namespace TidyMark.CommandLine

variable {σ ι : Type}

/-- One file now holds a text, and the others what they held. -/
structure Receives (content content' : ι → Option (List UInt8)) (file : ι) (text : Text) : Prop where
  written : content' file = some (text.flatMap String.utf8EncodeChar)
  others : ∀ other, other ≠ file → content' other = content other

/-- A text is what one output receives: the standard output if there is no path, with all files as
they were, or else the file that the path leads to, with nothing printed. -/
def GoesTo (content : σ → ι → Option (List UInt8)) (leadsTo : σ → Text → ι → Prop) (st : σ)
    (out : Ending × σ) (text : Text) : Option Text → Prop
  | none => out.1.stdout = text ∧ content out.2 = content st
  | some path => out.1.stdout = [] ∧
    ∃ file, leadsTo out.2 path file ∧ Receives (content st) (content out.2) file text

theorem GoesTo.congr {content : σ → ι → Option (List UInt8)} {leadsTo : σ → Text → ι → Prop}
    {st st' : σ} {out : Ending × σ} {text : Text} {output : Option Text}
    (h : content st = content st') :
    GoesTo content leadsTo st out text output ↔ GoesTo content leadsTo st' out text output := by
  cases output <;> simp only [GoesTo, h]

/-- What the operations of a host do to its files. `content` tells what the files hold, and
`leadsTo` which of them a path leads to. A write that fails leaves all files as they were. -/
structure KeepsFiles [Host (StateM σ)] (content : σ → ι → Option (List UInt8))
    (leadsTo : σ → Text → ι → Prop) : Prop where
  pathExists : ∀ path (st : σ), (Host.pathExists (m := StateM σ) path st).2 = st
  readStdin : ∀ st : σ, content (Host.readStdin (m := StateM σ) st).2 = content st
  readFile : ∀ path (st : σ), content (Host.readFile (m := StateM σ) path st).2 = content st
  createDirectories : ∀ path (st : σ),
    content (Host.createDirectories (m := StateM σ) path st).2 = content st
  writeFile_error : ∀ path text (st : σ) e,
    (Host.writeFile (m := StateM σ) path text st).1 = .error e →
      content (Host.writeFile (m := StateM σ) path text st).2 = content st
  writeFile_ok : ∀ path text (st : σ), (Host.writeFile (m := StateM σ) path text st).1 = .ok () →
    ∃ file, leadsTo (Host.writeFile (m := StateM σ) path text st).2 path file ∧
      Receives (content st) (content (Host.writeFile (m := StateM σ) path text st).2) file text

/-- Whether a source comes to a text in a format. -/
def Format.Yields (options : Options) (source text : Text) : Format → Prop
  | .markdown => ∃ rendered, tidy options source = .ok rendered ∧ rendered.text = text
  | .html => toHtml options source = .ok text
  | .expand => Reflink.expand options source = .ok text

/-- Whether the bytes of the input come to a text in the format that is asked for. -/
def Settings.Yields (s : Settings) (bytes : List UInt8) (text : Text) : Prop :=
  ∃ options source, s.options = .ok options ∧ Utf8.decode bytes = .ok source ∧
    s.format.Yields options source text

theorem yields_of_produce {s : Settings} {options : Options} {bytes : List UInt8} {p : Product}
    (hoptions : s.options = .ok options) (h : s.produce options bytes = .ok p) :
    s.Yields bytes p.result := by
  unfold Settings.produce at h
  cases hsource : Utf8.decode bytes with
  | error fault => simp [hsource, Except.mapError, bind, Except.bind] at h
  | ok source =>
    refine ⟨options, source, hoptions, hsource, ?_⟩
    simp only [hsource, Except.mapError, bind, Except.bind, Settings.render] at h
    cases hformat : s.format <;> rw [hformat] at h <;> simp only [Format.Yields]
    · cases hr : tidy options source with
      | error failure => simp [hr] at h
      | ok rendered =>
        simp only [hr, pure, Except.pure, Except.ok.injEq] at h
        exact ⟨rendered, rfl, by rw [← h]⟩
    · cases hr : toHtml options source with
      | error failure => simp [hr] at h
      | ok text =>
        simp only [hr, pure, Except.pure, Except.ok.injEq] at h
        rw [← h]
    · cases hr : Reflink.expand options source with
      | error failure => simp [hr] at h
      | ok text =>
        simp only [hr, pure, Except.pure, Except.ok.injEq] at h
        rw [← h]

theorem bind_apply {α β : Type} (x : StateM σ α) (f : α → StateM σ β) (st : σ) :
    (x >>= f) st = f (x st).1 (x st).2 :=
  rfl

section Runs

variable [Host (StateM σ)] {content : σ → ι → Option (List UInt8)} {leadsTo : σ → Text → ι → Prop}
  (h : KeepsFiles content leadsTo) (s : Settings) (st : σ)

include h

theorem content_readInput : content (s.readInput (m := StateM σ) st).2 = content st := by
  unfold Settings.readInput
  split_ifs
  · exact h.readStdin st
  · exact h.readFile s.input st

omit h in
/-- What preparing a run does once it is known whether the input is there. -/
theorem prepare_found (hstate : ∀ path (st : σ), (Host.pathExists (m := StateM σ) path st).2 = st) :
    ∃ found, s.prepare (m := StateM σ) st = (match s.check found with
      | .error e => pure (.error (.configuration e))
      | .ok () =>
        match s.options with
        | .error e => pure (.error (.renderOptions e))
        | .ok options => do return (← s.readInput).map (options, ·) : StateM σ _) st := by
  unfold Settings.prepare
  split_ifs
  · exact ⟨true, rfl⟩
  · refine ⟨(Host.pathExists (m := StateM σ) s.input st).1, ?_⟩
    exact (bind_apply _ _ st).trans (congrArg _ (hstate s.input st))

/-- Preparing a run changes no file, and where it succeeds the options and the input are there. -/
theorem prepare_cases :
    content (s.prepare (m := StateM σ) st).2 = content st ∧
      ∀ options bytes, (s.prepare (m := StateM σ) st).1 = .ok (options, bytes) →
        s.options = .ok options ∧ (s.readInput (m := StateM σ) st).1 = .ok bytes := by
  obtain ⟨found, hprepare⟩ := prepare_found s st h.pathExists
  rw [hprepare]
  cases s.check found with
  | error e => exact ⟨rfl, fun _ _ he => nomatch he⟩
  | ok =>
    cases hoptions : s.options with
    | error e => exact ⟨rfl, fun _ _ he => nomatch he⟩
    | ok options =>
      simp only [bind_apply]
      refine ⟨content_readInput h s st, fun options' bytes he => ?_⟩
      cases hread : (s.readInput (m := StateM σ) st).1 with
      | error e =>
        rw [hread] at he
        exact nomatch he
      | ok bytes' =>
        rw [hread] at he
        cases (he : (.ok (options, bytes') : Except RunError _) = .ok (options', bytes))
        exact ⟨rfl, rfl⟩

/-- What saving a result does once there is a directory for it, or not. -/
theorem save_made (path result : Text) : ∃ (made : Except RunError Unit) (st₁ : σ), content st₁ = content st ∧
    save (m := StateM σ) path result st = (match made with
      | .error e => pure (.error e)
      | .ok () => do return (← Host.writeFile path result).mapError (.writeFile path) :
        StateM σ _) st₁ := by
  unfold save
  cases Path.directory? path with
  | none => exact ⟨.ok (), st, rfl, rfl⟩
  | some d =>
    refine ⟨((Host.createDirectories (m := StateM σ) d st).1).mapError (.createDirectory d),
      (Host.createDirectories (m := StateM σ) d st).2, h.createDirectories d st, rfl⟩

/-- A result is saved in one file, or no file changes. -/
theorem save_cases (path result : Text) :
    (∃ e, (save (m := StateM σ) path result st).1 = .error e ∧
      content (save (m := StateM σ) path result st).2 = content st) ∨
    ((save (m := StateM σ) path result st).1 = .ok () ∧
      ∃ file, leadsTo (save (m := StateM σ) path result st).2 path file ∧
        Receives (content st) (content (save (m := StateM σ) path result st).2) file result) := by
  obtain ⟨made, st₁, hcontent, hsave⟩ := save_made h st path result
  rw [hsave, ← hcontent]
  cases made with
  | error e => exact .inl ⟨e, rfl, rfl⟩
  | ok =>
    dsimp only
    rw [bind_apply]
    cases hwrite : (Host.writeFile (m := StateM σ) path result st₁).1 with
    | error e => exact .inl ⟨.writeFile path e, rfl, h.writeFile_error path result st₁ e hwrite⟩
    | ok => exact .inr ⟨rfl, h.writeFile_ok path result st₁ hwrite⟩

/-- A run that got as far as a result ends in success with the result in one output, or fails with
all files as they were. -/
theorem deliver_cases (p : Product) :
    ((s.deliver (m := StateM σ) p st).1.code = 1 ∧ (s.deliver (m := StateM σ) p st).1.stdout = [] ∧
      content (s.deliver (m := StateM σ) p st).2 = content st) ∨
    ((s.deliver (m := StateM σ) p st).1.code = 0 ∧
      GoesTo content leadsTo st (s.deliver (m := StateM σ) p st) p.result s.output) := by
  unfold Settings.deliver
  cases s.output with
  | none => exact .inr ⟨rfl, rfl, rfl⟩
  | some path =>
    dsimp only
    rw [bind_apply]
    obtain ⟨e, he, hcontent⟩ | ⟨hok, hfile⟩ := save_cases h st path p.result
    · rw [he]
      exact .inl ⟨rfl, rfl, hcontent⟩
    · rw [hok]
      exact .inr ⟨rfl, rfl, hfile⟩

/-- A run with settings fails with nothing printed and all files as they were, or gives what the
input comes to to its output. -/
theorem settingsRun_cases :
    ((s.run (m := StateM σ) st).1.code = 1 ∧ (s.run (m := StateM σ) st).1.stdout = [] ∧
      content (s.run (m := StateM σ) st).2 = content st) ∨
    ((s.run (m := StateM σ) st).1.code = 0 ∧
      ∃ bytes text, (s.readInput (m := StateM σ) st).1 = .ok bytes ∧ s.Yields bytes text ∧
        GoesTo content leadsTo st (s.run (m := StateM σ) st) text s.output) := by
  obtain ⟨hcontent, hprepared⟩ := prepare_cases h s st
  unfold Settings.run
  rw [bind_apply]
  cases hprepare : (s.prepare (m := StateM σ) st).1 with
  | error e => exact .inl ⟨rfl, rfl, hcontent⟩
  | ok prepared =>
    obtain ⟨options, bytes⟩ := prepared
    obtain ⟨hoptions, hread⟩ := hprepared options bytes hprepare
    cases hproduce : s.produce options bytes with
    | error e =>
      simp only [hproduce]
      exact .inl ⟨rfl, rfl, hcontent⟩
    | ok p =>
      simp only [hproduce]
      obtain ⟨hcode, hstdout, hkept⟩ | ⟨hcode, hto⟩ :=
        deliver_cases h s (s.prepare (m := StateM σ) st).2 p
      · exact .inl ⟨hcode, hstdout, hkept.trans hcontent⟩
      · rw [GoesTo.congr hcontent] at hto
        exact .inr ⟨hcode, bytes, p.result, hread, yields_of_produce hoptions hproduce, hto⟩

/-- A run with a nonzero code prints nothing and leaves every file as it was. Where the arguments
can be read and the code is zero, what the input comes to in the format asked for went to the one
output that the settings name, in full, and to no other. -/
theorem run_allOrNothing (args : List Text) :
    ((run (m := StateM σ) args st).1.code ≠ 0 →
      (run (m := StateM σ) args st).1.stdout = [] ∧
        content (run (m := StateM σ) args st).2 = content st) ∧
    ∀ s, Settings.ofArguments args = .ok s → (run (m := StateM σ) args st).1.code = 0 →
      ∃ bytes text, (s.readInput (m := StateM σ) st).1 = .ok bytes ∧ s.Yields bytes text ∧
        GoesTo content leadsTo st (run (m := StateM σ) args st) text s.output := by
  unfold run
  cases hargs : Settings.ofArguments args with
  | error stop =>
    refine ⟨fun hcode => ⟨?_, rfl⟩, fun s hs => nomatch hs⟩
    cases stop with
    | help => exact absurd rfl hcode
    | version => exact absurd rfl hcode
    | misuse e => rfl
  | ok s =>
    obtain ⟨hcode, hstdout, hkept⟩ | ⟨hcode, hto⟩ := settingsRun_cases h s st
    · exact ⟨fun _ => ⟨hstdout, hkept⟩, fun _ _ h0 => absurd (hcode.symm.trans h0) (by decide)⟩
    · refine ⟨fun hn => absurd hcode hn, fun s' hs' _ => ?_⟩
      cases hs'
      exact hto

end Runs

namespace Files

variable {fs : Files} {p : Place} {content : List UInt8}

theorem lookup_put (fs : Files) (p : Place) (content : List UInt8) :
    (fs.put p content).contents.lookup p = some content := by
  have hnone : (fs.contents.filter (·.1 != p)).lookup p = none := by
    rw [List.lookup_eq_none_iff]
    intro entry hentry
    have hne := (List.mem_filter.mp hentry).2
    grind
  simp [put, List.lookup_append, hnone]

theorem lookup_put_of_ne {q : Place} (h : q ≠ p) :
    (fs.put p content).contents.lookup q = fs.contents.lookup q := by
  have hfilter : ∀ entries : List (Place × List UInt8),
      (entries.filter (·.1 != p)).lookup q = entries.lookup q := by
    intro entries
    induction entries with
    | nil => rfl
    | cons entry rest ih =>
      obtain ⟨place, held⟩ := entry
      by_cases hplace : place = p
      · have hq : (q == p) = false := by grind
        simp [hplace, List.lookup_cons, ih, hq]
      · simp [hplace, List.lookup_cons, ih]
  have hq : (q == p) = false := by grind
  simp [put, List.lookup_append, hfilter, List.lookup_cons, hq]

theorem isDirectory_put {q : Place} (h : fs.isDirectory q = true) :
    (fs.put p content).isDirectory q = true := by
  simp only [isDirectory, Bool.or_eq_true, List.any_eq_true] at h ⊢
  refine h.imp_right fun ⟨entry, hentry, hbelow⟩ => ?_
  by_cases hp : entry.1 = p
  · exact ⟨(p, content), by simp [put], hp ▸ hbelow⟩
  · exact ⟨entry, by simp [put, hentry, hp], hbelow⟩

/-- A file put where no directory stands leaves the directories. -/
theorem node?_put {q : Place} (hp : fs.node? p ≠ some .directory)
    (hq : fs.node? q = some .directory) : (fs.put p content).node? q = some .directory := by
  have hne : q ≠ p := fun he => hp (he ▸ hq)
  unfold node? at hq ⊢
  rw [lookup_put_of_ne hne]
  cases hlookup : fs.contents.lookup q with
  | some held => simp [hlookup] at hq
  | none =>
    rw [hlookup] at hq
    by_cases hdir : fs.isDirectory q = true
    · simp [isDirectory_put hdir]
    · simp [hdir] at hq

/-- A file put where no directory stands leaves every path that leads somewhere. -/
theorem walk_put (hp : fs.node? p ≠ some .directory) {q : Place} :
    ∀ {steps : List Text} {place : Place}, fs.walk place steps = .ok q →
      (fs.put p content).walk place steps = .ok q := by
  intro steps
  induction steps with
  | nil => exact fun h => h
  | cons name rest ih =>
    intro place h
    simp only [walk] at h ⊢
    split_ifs at h ⊢
    · exact h
    · cases hnode : fs.node? (place.step name) with
      | none => simp [hnode] at h
      | some node =>
        cases node with
        | file held => simp [hnode] at h
        | directory =>
          rw [hnode] at h
          rw [node?_put hp hnode]
          exact ih h

/-- What is written stands where the path leads to. -/
theorem write_cases {path : Text} {fs' : Files} (h : fs.write path content = .ok fs') :
    ∃ place, fs' = fs.put place content ∧ fs'.locate (Path.ofText path) = .ok place := by
  simp only [write, bind, Except.bind] at h
  cases hplace : fs.locate (Path.ofText path) with
  | error e => simp [hplace] at h
  | ok place =>
    rw [hplace] at h
    have hput : fs.node? place ≠ some .directory ∧ fs.put place content = fs' := by
      dsimp only at h
      split at h
      · exact nomatch h
      all_goals
        split_ifs at h
        cases h
        simp_all
    exact ⟨place, hput.2.symm, by rw [← hput.2]; exact walk_put hput.1 hplace⟩

end Files

/-- What the files of a world hold. -/
def World.content (w : World) (place : Place) : Option (List UInt8) :=
  w.files.contents.lookup place

/-- The place that a path leads to in a world. -/
def World.LeadsTo (w : World) (path : Text) (place : Place) : Prop :=
  w.files.locate (Path.ofText path) = .ok place

theorem World.change_cases (f : Files → Except SystemError Files) (w : World) :
    (∃ e, f w.files = .error e ∧ World.change f w = (.error e, w)) ∨
      ∃ files, f w.files = .ok files ∧ World.change f w = (.ok (), { w with files }) := by
  unfold World.change
  cases hf : f w.files with
  | error e => exact .inl ⟨e, rfl, rfl⟩
  | ok files => exact .inr ⟨files, rfl, rfl⟩

/-- The operations of a world do to its files what they should. -/
theorem keepsFiles_world : KeepsFiles World.content World.LeadsTo where
  pathExists _ _ := rfl
  readStdin _ := rfl
  readFile _ _ := rfl
  createDirectories path w := by
    simp only [Host.createDirectories]
    obtain ⟨e, -, hw⟩ | ⟨files, hmade, hw⟩ := World.change_cases (·.createDirectories path) w
    · rw [hw]
    · funext place
      rw [hw, World.content, Files.contents_createAlong hmade, World.content]
  writeFile_error path text w e h := by
    simp only [Host.writeFile] at h ⊢
    obtain ⟨e, -, hw⟩ | ⟨files, -, hw⟩ := World.change_cases
      (·.write path (text.flatMap String.utf8EncodeChar)) w
    · rw [hw]
    · rw [hw] at h
      exact nomatch h
  writeFile_ok path text w h := by
    simp only [Host.writeFile] at h ⊢
    obtain ⟨e, -, hw⟩ | ⟨files, hwrite, hw⟩ := World.change_cases
      (·.write path (text.flatMap String.utf8EncodeChar)) w
    · rw [hw] at h
      exact nomatch h
    · obtain ⟨place, hfiles, hlocate⟩ := Files.write_cases hwrite
      refine ⟨place, ?_, ?_, fun other hother => ?_⟩
      · rw [hw]
        exact hlocate
      · rw [hw, World.content, hfiles, Files.lookup_put]
      · rw [hw, World.content, hfiles, Files.lookup_put_of_ne hother, World.content]

/-- A world with one file in it. -/
def World.ofFile (path source : Text) : World where
  files := { contents := [([path], source.flatMap String.utf8EncodeChar)] }

/-- Settings of a run that expands a file in its place. -/
def inPlace (reflinks : List Text) (strict : Bool) : Settings where
  input := "d"
  output := some "d"
  reflinks := reflinks
  strict := strict
  format := .expand

/-- A run may write the file that it reads, and does not if the expansion fails. -/
theorem run_inPlace :
    ((run (m := StateM World) ["--format=expand", "--reflink=a=b", "-od", "d"]
          (.ofFile "d" "[a]")).1.code = 0 ∧
      ∃ bytes text, ((inPlace ["a=b"] false).readInput (m := StateM World)
          (.ofFile "d" "[a]")).1 = .ok bytes ∧ (inPlace ["a=b"] false).Yields bytes text ∧
        GoesTo World.content World.LeadsTo (.ofFile "d" "[a]")
          (run (m := StateM World) ["--format=expand", "--reflink=a=b", "-od", "d"]
            (.ofFile "d" "[a]")) text (some "d")) ∧
    ((run (m := StateM World) ["--format=expand", "--strict", "-od", "d"]
          (.ofFile "d" "[a]\x7b")).1.code ≠ 0 ∧
      (run (m := StateM World) ["--format=expand", "--strict", "-od", "d"]
          (.ofFile "d" "[a]\x7b")).1.stdout = [] ∧
        World.content (run (m := StateM World) ["--format=expand", "--strict", "-od", "d"]
          (.ofFile "d" "[a]\x7b")).2 = World.content (.ofFile "d" "[a]\x7b")) := by
  have hcode : (run (m := StateM World) ["--format=expand", "--reflink=a=b", "-od", "d"]
      (.ofFile "d" "[a]")).1.code = 0 := by decide +kernel
  have hfails : (run (m := StateM World) ["--format=expand", "--strict", "-od", "d"]
      (.ofFile "d" "[a]\x7b")).1.code ≠ 0 := by decide +kernel
  exact ⟨⟨hcode, (run_allOrNothing keepsFiles_world _ _).2 (inPlace ["a=b"] false) (by rfl) hcode⟩,
    hfails, (run_allOrNothing keepsFiles_world _ _).1 hfails⟩

end TidyMark.CommandLine
