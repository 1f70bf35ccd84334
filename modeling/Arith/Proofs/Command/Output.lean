import Arith.Proofs.Command.Endings
import Arith.Proofs.Files.Writing

/-!
# What runs leave

A run leaves either nothing but remarks, or the whole rendering of its document in the one place
that it was to go to (`Leaves`). The first is so for every run that does not return 0, wherever it
came to its end, and the second for every run that does (`all_or_nothing_of_arguments`). A listing
of many good tokens is no exception: it is put out only once it is complete.
-/

namespace Arith.Command

open Utf8 (encode)

/-! ## What is left -/

/--
How a run ends, and what it leaves of surroundings besides remarks: nothing new, or a rendering
among the results or in a file.
-/
inductive Leaves {ε : Type} (s : Surroundings) (output? : Option Path)
    (rendered : List Char → Prop) : Ending ε × Surroundings → Prop where
  | nothing {ending : Ending ε} {remarks : List Char} (hending : ending ≠ .returned 0) :
      Leaves s output? rendered (ending, { s with remarks })
  | printed {text remarks : List Char} (hrendered : rendered text) (hplace : output? = none) :
      Leaves s output? rendered (.returned 0, { s with results := s.results ++ text, remarks })
  | written {text remarks : List Char} {p : Path} {files : FileTree} (hrendered : rendered text)
      (hplace : output? = some p) (hwrite : s.files.write p (encode text) = .ok files) :
      Leaves s output? rendered (.returned 0, { s with files, remarks })

variable {ε : Type} {l : Limits ε}

namespace Leaves

variable {s : Surroundings} {output? : Option Path} {rendered rendered' : List Char → Prop}
  {left : Ending ε × Surroundings}

/-- Remarks that were made before are among those that are left. -/
theorem of_remarks {remarks : List Char} (h : Leaves { s with remarks } output? rendered left) :
    Leaves s output? rendered left := by
  cases h with
  | nothing hending => exact nothing hending
  | printed hrendered hplace => exact printed hrendered hplace
  | written hrendered hplace hwrite => exact written hrendered hplace hwrite

theorem mono (h : Leaves s output? rendered left) (himp : ∀ text, rendered text → rendered' text) :
    Leaves s output? rendered' left := by
  cases h with
  | nothing hending => exact nothing hending
  | printed hrendered hplace => exact printed (himp _ hrendered) hplace
  | written hrendered hplace hwrite => exact written (himp _ hrendered) hplace hwrite

end Leaves

/-! ## Steps -/

/-- A rendering that can be written is written. -/
theorem deliver_of_write {st : Settings} {p : Path} {text : List Char} {s : Surroundings}
    {files : FileTree} (hplace : st.output? = some p)
    (hwrite : s.files.write p (encode text) = .ok files) :
    (deliver st text : StateM Surroundings (Ending ε)) s = (.returned 0, { s with files }) := by
  unfold deliver
  rw [hplace]
  dsimp only
  rw [bind_apply, writeFile_apply, Surroundings.writeFile, hwrite]
  rfl

theorem deliver_leaves (st : Settings) (text : List Char) (s : Surroundings) :
    Leaves s st.output? (· = text) ((deliver st text : StateM Surroundings (Ending ε)) s) := by
  cases hplace : st.output? with
  | none =>
    unfold deliver
    rw [hplace]
    exact Leaves.printed rfl rfl
  | some p =>
    cases hwrite : s.files.write p (encode text) with
    | ok files =>
      rw [deliver_of_write hplace hwrite]
      exact Leaves.written rfl rfl hwrite
    | error f =>
      unfold deliver
      rw [hplace]
      dsimp only
      rw [bind_apply, writeFile_apply, Surroundings.writeFile, hwrite]
      exact Leaves.nothing (by simp)

/-- A report is a remark. -/
theorem report_leaves {rendered : List Char → Prop} (st : Settings) (d : Document)
    (message : String) (span : Span) (s : Surroundings) :
    Leaves s st.output? rendered
      ((report st d message span : StateM Surroundings (Ending ε)) s) := by
  obtain ⟨remarks, hlog⟩ := logDebug_eq st.logLevel "whylang.document".toList
    ("building line map for ".toList ++ d.name.toList) s
  unfold report
  rw [bind_apply, logDocument, hlog]
  exact Leaves.nothing (by simp)

/-- The rendering of a document is put out as a whole, or not at all. -/
theorem compile_leaves (st : Settings) (d : Document) (s : Surroundings) :
    Leaves s st.output?
      (fun text => (Format.orDefault st.format?).render st.indent d.content = .ok text)
      ((compile st d l : StateM Surroundings (Ending ε)) s) := by
  cases hdraft : (Format.orDefault st.format?).draft d.content with
  | ok draft =>
    cases hroom : l.onDraft (Format.orDefault st.format?) st.indent draft with
    | some e =>
      obtain ⟨remarks, hcompile⟩ := compile_of_limit hdraft hroom s
      rw [hcompile]
      exact Leaves.nothing nofun
    | none =>
      obtain ⟨remarks, hcompile⟩ := compile_of_room hdraft hroom s
      rw [hcompile]
      refine (deliver_leaves st _ _).of_remarks.mono ?_
      rintro text rfl
      rw [Format.render, hdraft]
      rfl
  | error fault =>
    unfold compile
    dsimp only
    rw [hdraft]
    dsimp only
    cases fault.error? with
    | some place => exact report_leaves st d place.1 place.2 s
    | none => exact Leaves.nothing nofun

/-- The document that settings ask for has a rendering. -/
def Renders (s : Surroundings) (st : Settings) (text : List Char) : Prop :=
  ∃ content, contentIn s st = .ok content ∧
    (Format.orDefault st.format?).render st.indent content = .ok text

/-- A document that was read is rendered. -/
theorem exists_runSettings_eq {st : Settings} {s : Surroundings} {content : Bytes}
    (hcontent : contentIn s st = .ok content) :
    ∃ name remarks, (runSettings st l : StateM Surroundings (Ending ε)) s
      = (compile st { name, content } l : StateM Surroundings (Ending ε)) { s with remarks } := by
  obtain ⟨name, remarks, hload⟩ := loadDocument_eq st s
  refine ⟨name, remarks, ?_⟩
  unfold runSettings
  rw [bind_apply, hload, hcontent]
  rfl

theorem runSettings_leaves (st : Settings) (s : Surroundings) :
    Leaves s st.output? (Renders s st)
      ((runSettings st l : StateM Surroundings (Ending ε)) s) := by
  cases hcontent : contentIn s st with
  | ok content =>
    obtain ⟨name, remarks, hrun⟩ := exists_runSettings_eq (l := l) hcontent
    rw [hrun]
    exact (compile_leaves st { name, content } _).of_remarks.mono fun _ h => ⟨content, hcontent, h⟩
  | error f =>
    obtain ⟨name, remarks, hload⟩ := loadDocument_eq st s
    unfold runSettings
    rw [bind_apply, hload, hcontent]
    cases f with
    | badCharacter => exact Leaves.nothing nofun
    | _ => exact Leaves.nothing (by simp)

/-- A run with settings goes on with them. -/
theorem runArguments_of_settle {a : Arguments} {s : Surroundings} {st : Settings}
    (hsettle : Settings.settle l s.files a = .ok st) :
    (runArguments a l : StateM Surroundings (Ending ε)) s
      = (runSettings st l : StateM Surroundings (Ending ε)) s := by
  unfold runArguments
  rw [bind_apply, resolve_eq, hsettle]

theorem runArguments_leaves (a : Arguments) (s : Surroundings) :
    Leaves s (a.output.value?.bind Settings.pathOf?)
      (fun text => ∃ st, Settings.settle l s.files a = .ok st ∧ Renders s st text)
      ((runArguments a l : StateM Surroundings (Ending ε)) s) := by
  cases hsettle : Settings.settle l s.files a with
  | ok st =>
    rw [runArguments_of_settle hsettle, ← Settings.output?_of_settle hsettle]
    exact (runSettings_leaves st s).mono fun _ h => ⟨st, rfl, h⟩
  | error f =>
    unfold runArguments
    rw [bind_apply, resolve_eq, hsettle]
    dsimp only
    cases f.message? with
    | some message => exact Leaves.nothing (by simp)
    | none => exact Leaves.nothing nofun

/-- Arguments that are read are all that a run looks at. -/
theorem runOn_of_ofTexts {texts : List (List Char)} {c : Conventions} {a : Arguments}
    (hread : Reading.ofTexts texts c = .arguments a) (s : Surroundings) :
    runOn texts s c l = (runArguments a l : StateM Surroundings (Ending ε)) s := by
  unfold runOn run readArguments
  rw [hread]
  rfl

/-! ## Runs -/

/-- A rendering is the only thing that is new: among the results, or at the place that is given. -/
inductive Delivered (a : Arguments) (text : List Char) (s after : Surroundings) : Prop where
  /-- No place is given, or an empty one. -/
  | printed (hplace : ∀ place, a.output = .value place → place = [])
      (hresults : after.results = s.results ++ text) (hfiles : after.files = s.files)
  | written {place : List Char} {location : Location} (hplace : a.output = .value place)
      (hne : place ≠ []) (hfollow : s.files.follow (.ofText place) = .ok location)
      (htook : FileTree.Took s.files after.files location (encode text))
      (hothers : ∀ other ≠ location, after.files.find? other = s.files.find? other)
      (hresults : after.results = s.results)

/-- Only an empty text stands for no path. -/
theorem eq_nil_of_place_none {given : Given (List Char)} {place : List Char}
    (h : given.value?.bind Settings.pathOf? = none) (hgiven : given = .value place) :
    place = [] := by
  subst hgiven
  cases place with
  | nil => rfl
  | cons c place => cases h

/-- A path is that of a text that is given and not empty. -/
theorem exists_place_of_some {given : Given (List Char)} {p : Path}
    (h : given.value?.bind Settings.pathOf? = some p) :
    ∃ place, given = .value place ∧ place ≠ [] ∧ p = .ofText place := by
  cases given with
  | value place =>
    cases place with
    | nil => cases h
    | cons c place =>
      cases h
      exact ⟨c :: place, rfl, List.cons_ne_nil _ _, rfl⟩
  | _ => cases h

/--
**A run puts out all or nothing.** If it does not return 0, there are no new results, and the files
are what they were. If it returns 0, the whole rendering of the document has gone to one place: to
the file that the arguments give, or to the results if they give none. Where two dashes are a text,
a place that is given is a text too.
-/
theorem all_or_nothing_of_arguments {texts : List (List Char)} {c : Conventions} {l : Limits ε}
    {a : Arguments} {s : Surroundings} (hread : Reading.ofTexts texts c = .arguments a) :
    ((runOn texts s c l).1 ≠ .returned 0 →
      (runOn texts s c l).2.results = s.results ∧ (runOn texts s c l).2.files = s.files) ∧
    ((runOn texts s c l).1 = .returned 0 → ∃ st text, Settings.settle l s.files a = .ok st ∧
      Renders s st text ∧ Delivered a text s (runOn texts s c l).2) ∧
    (c.dashesAreText = true → a.output ≠ .blank) := by
  have hleaves := runArguments_leaves (l := l) a s
  rw [← runOn_of_ofTexts hread s] at hleaves
  generalize runOn texts s c l = left at hleaves
  refine ⟨?_, ?_, fun hc => (valued_of_ofTexts hc hread).output_ne⟩
  · intro hending
    cases hleaves with
    | nothing _ => exact ⟨rfl, rfl⟩
    | _ => exact absurd rfl hending
  · intro hending
    cases hleaves with
    | nothing hne => exact absurd hending hne
    | @printed text _ hrendered hplace =>
      obtain ⟨st, hsettle, hrenders⟩ := hrendered
      exact ⟨st, text, hsettle, hrenders,
        Delivered.printed (fun _ => eq_nil_of_place_none hplace) rfl rfl⟩
    | @written text _ p files hrendered hplace hwrite =>
      obtain ⟨st, hsettle, hrenders⟩ := hrendered
      obtain ⟨place, hgiven, hne, rfl⟩ := exists_place_of_some hplace
      obtain ⟨location, hfollow, htook, hothers⟩ := FileTree.exists_location_of_write hwrite
      exact ⟨st, text, hsettle, hrenders,
        Delivered.written hgiven hne hfollow htook hothers rfl⟩

/-- A listing that meets a malformed byte behind a token leaves nothing, and without that byte it
is all in the file. -/
theorem all_or_nothing_of_arguments_listing :
    let texts := ["in.why".toList, "-ftokens".toList, "-oout".toList]
    let a : Arguments :=
      { input := "in.why".toList, output := .value "out".toList, format := .value .tokens }
    let broken : Surroundings :=
      { files := .ofWorkingDirectory [(["in.why".toList], .file [0x31, 0x20, 0xFF])] }
    let sound : Surroundings :=
      { files := .ofWorkingDirectory [(["in.why".toList], .file [0x31])] }
    Reading.ofTexts texts .late = .arguments a ∧
      ((runOn texts broken .late (.ofDepth 0)).1 = .returned 1 ∧
        (runOn texts broken .late (.ofDepth 0)).2.results = [] ∧
        (runOn texts broken .late (.ofDepth 0)).2.files = broken.files) ∧
      (runOn texts sound .late (.ofDepth 0)).1 = .returned 0 ∧
        ∃ text, Delivered a text sound (runOn texts sound .late (.ofDepth 0)).2 := by
  intro texts a broken sound
  let st : Settings :=
    { input := .ofString "in.why"
      output? := some (.ofString "out")
      format? := some .tokens }
  have hread : Reading.ofTexts texts .late = .arguments a := by decide +kernel
  have hfailed : (runOn texts broken .late (.ofDepth 0)).1 = .returned 1 := by
    have hsettle : Settings.settle (Limits.ofDepth 0) broken.files a = .ok st := by cbv
    have hcontent : contentIn broken st = .ok [0x31, 0x20, 0xFF] := by decide +kernel
    have hrender : (Format.orDefault st.format?).render st.indent [0x31, 0x20, 0xFF]
        = .error (.listing (.error (.text (.ofMalformed 2 (.badLead 0xFF))))) := by decide +kernel
    have hdraft := Format.render_eq_error_iff.1 hrender
    obtain ⟨name, remarks, hrun⟩ := exists_runSettings_eq (l := .ofDepth 0) hcontent
    rw [runOn_of_ofTexts hread, runArguments_of_settle hsettle, hrun]
    exact compile_of_error hdraft rfl _
  have hdone : (runOn texts sound .late (.ofDepth 0)).1 = .returned 0 := by
    have hsettle : Settings.settle (Limits.ofDepth 0) sound.files a = .ok st := by cbv
    have hcontent : contentIn sound st = .ok [0x31] := by decide +kernel
    have hdraft : (Format.orDefault st.format?).draft [0x31]
        = .ok (.listing "NUMBER     0..1 '1' 1\n".toList) := by decide +kernel
    have hplace : st.output? = some (.ofString "out") := rfl
    obtain ⟨files, hwrite⟩ : ∃ files, sound.files.write (.ofString "out")
        (encode "NUMBER     0..1 '1' 1\n".toList) = .ok files := ⟨_, rfl⟩
    obtain ⟨name, remarks, hrun⟩ := exists_runSettings_eq (l := .ofDepth 0) hcontent
    obtain ⟨remarks', hcompile⟩ := compile_of_room (d := ⟨name, [0x31], {}⟩) (l := .ofDepth 0)
      hdraft rfl { sound with remarks }
    rw [runOn_of_ofTexts hread, runArguments_of_settle hsettle, hrun, hcompile]
    exact congrArg Prod.fst (deliver_of_write hplace hwrite)
  obtain ⟨hnothing, -⟩ := all_or_nothing_of_arguments (l := .ofDepth 0) (s := broken) hread
  obtain ⟨-, hall, -⟩ := all_or_nothing_of_arguments (l := .ofDepth 0) (s := sound) hread
  obtain ⟨hresults, hfiles⟩ := hnothing (by rw [hfailed]; simp)
  obtain ⟨st', text, -, -, hdelivered⟩ := hall hdone
  exact ⟨hread, ⟨hfailed, hresults, hfiles⟩, hdone, text, hdelivered⟩

end Arith.Command
