import Arith.Command.Run
import Arith.Proofs.Command.Arguments
import Arith.Proofs.Command.Rendering
import Arith.Proofs.Command.Settings

/-!
# How runs end

A run whose arguments were read returns 0, 1 or 2, unless it is interrupted. That happens if and
only if something is wrong that the command is not prepared for (`ending_of_arguments`): with the
configuration, with the path of the document, with a literal of the document, or with the place
that the rendering goes to, or if the host runs out of room.

All of this is so by both conventions of reading arguments, and whatever the limits of the host are.

Logging changes nothing but the remarks, and no ending depends on these.
-/

namespace Arith.Command

open Utf8 (encode)

/-! ## Steps on surroundings -/

theorem bind_apply {α β : Type} (x : StateM Surroundings α) (k : α → StateM Surroundings β)
    (s : Surroundings) : (x >>= k) s = k (x s).1 (x s).2 := rfl

theorem readFile_apply (p : Path) (s : Surroundings) :
    (Host.readFile p : StateM Surroundings _) s = (s.files.read p, s) := rfl

theorem writeFile_apply (p : Path) (content : Bytes) (s : Surroundings) :
    (Host.writeFile p content : StateM Surroundings _) s = s.writeFile p content := rfl

theorem logDebug_eq (level : LogLevel) (topic message : List Char) (s : Surroundings) :
    ∃ remarks, (logDebug level topic message : StateM Surroundings Unit) s
      = ((), { s with remarks }) := by
  unfold logDebug
  split
  · exact ⟨_, rfl⟩
  · exact ⟨s.remarks, rfl⟩

variable {ε : Type} {l : Limits ε}

theorem loadConfig_eq (p : Path) (s : Surroundings) :
    (loadConfig l p : StateM Surroundings _) s = (Settings.configIn l s.files p, s) := by
  unfold loadConfig Settings.configIn
  rw [bind_apply, readFile_apply]
  cases s.files.read p <;> rfl

/-- Settings are found without a change to anything. -/
theorem resolve_eq (a : Arguments) (s : Surroundings) :
    (resolve a l : StateM Surroundings _) s = (Settings.settle l s.files a, s) := by
  unfold resolve Settings.settle
  rw [bind_apply, loadConfig_eq]
  cases Settings.configIn l s.files (Settings.configPath a) <;> rfl

/-- The bytes of the document that settings ask for. -/
def contentIn (s : Surroundings) (st : Settings) : Except FileFault Bytes :=
  if st.input.toText = standardInput then .ok s.input else s.files.read st.input

theorem loadDocument_eq (st : Settings) (s : Surroundings) :
    ∃ name remarks, (loadDocument st : StateM Surroundings _) s
      = ((contentIn s st).map fun content => { name, content }, { s with remarks }) := by
  unfold loadDocument contentIn
  split
  · exact ⟨"<stdin>", s.remarks, rfl⟩
  · rw [bind_apply, readFile_apply]
    cases s.files.read st.input with
    | error f => exact ⟨"", s.remarks, rfl⟩
    | ok content =>
      dsimp only
      rw [bind_apply]
      obtain ⟨remarks, hlog⟩ := logDebug_eq st.logLevel "whylang.document".toList
        ("loaded ".toList ++ st.input.toText ++ " (".toList ++ Numeral.writeNat content.length
          ++ " bytes)".toList) s
      rw [logDocument, hlog]
      exact ⟨st.input.toString, remarks, rfl⟩

/-! ## Endings by their causes -/

/-- A run is interrupted by exactly the causes of a sort, and returns 0, 1 or 2 if there are none.
-/
def Ending.Follows (e : Ending ε) (causes : Interruption ε → Prop) : Prop :=
  (∀ cause, e = .interrupted cause ↔ causes cause) ∧
    ((∀ cause, ¬ causes cause) → ∃ code ≤ 2, e = .returned code)

namespace Ending

variable {causes causes' : Interruption ε → Prop}

theorem follows_returned {code : Nat} (hcode : code ≤ 2) (h : ∀ cause, ¬ causes cause) :
    (returned code).Follows causes :=
  ⟨fun cause => ⟨nofun, fun hcause => absurd hcause (h cause)⟩, fun _ => ⟨code, hcode, rfl⟩⟩

theorem follows_interrupted {cause : Interruption ε} (h : causes cause)
    (hunique : ∀ cause', causes cause' → cause' = cause) : (interrupted cause).Follows causes := by
  refine ⟨fun cause' => ⟨?_, ?_⟩, fun hnone => absurd h (hnone cause)⟩
  · rintro ⟨⟩
    exact h
  · intro hcause
    rw [hunique cause' hcause]

theorem Follows.congr {e : Ending ε} (h : e.Follows causes)
    (hcauses : ∀ cause, causes cause ↔ causes' cause) : e.Follows causes' := by
  rwa [funext fun cause => propext (hcauses cause)] at h

end Ending

/-! ## Renderings -/

/-- What goes wrong with the rendering of a document that the command is not prepared for. -/
inductive Undone (l : Limits ε) (files : FileTree) (st : Settings) (content : Bytes) :
    Interruption ε → Prop where
  /-- A literal of too many digits is met. -/
  | overlong (h : (Format.orDefault st.format?).MeetsOverlong content) :
      Undone l files st content (.render (Format.orDefault st.format?).overlong)
  /-- The host has no room to render the expression. -/
  | limit {expr : Expr} {e : ε}
      (hdraft : (Format.orDefault st.format?).draft content = .ok (.expr expr))
      (hlimit : l.rendering (Format.orDefault st.format?) st.indent expr = some e) :
      Undone l files st content (.limit e)
  /-- The rendering cannot be written to its place. -/
  | unwritten {draft : Draft} {p : Path} {f : FileFault}
      (hdraft : (Format.orDefault st.format?).draft content = .ok draft)
      (hroom : l.onDraft (Format.orDefault st.format?) st.indent draft = none)
      (hplace : st.output? = some p)
      (hwrite : files.write p (encode ((Format.orDefault st.format?).finish st.indent draft))
        = .error f) :
      Undone l files st content (.file p f)

theorem deliver_follows (st : Settings) (text : List Char) (s : Surroundings) :
    ((deliver st text : StateM Surroundings (Ending ε)) s).1.Follows fun cause =>
      ∃ p f, st.output? = some p ∧ s.files.write p (encode text) = .error f ∧
        cause = .file p f := by
  unfold deliver
  cases st.output? with
  | none =>
    apply Ending.follows_returned (Nat.zero_le 2)
    rintro cause ⟨p, f, hplace, -⟩
    cases hplace
  | some p =>
    dsimp only
    rw [bind_apply, writeFile_apply, Surroundings.writeFile]
    cases hwrite : s.files.write p (encode text) with
    | ok files =>
      apply Ending.follows_returned (Nat.zero_le 2)
      rintro cause ⟨p', f, hplace, hfault, -⟩
      cases hplace
      cases hwrite.symm.trans hfault
    | error f =>
      apply Ending.follows_interrupted ⟨p, f, rfl, hwrite, rfl⟩
      rintro cause ⟨p', f', hplace, hfault, rfl⟩
      cases hplace
      cases hwrite.symm.trans hfault
      rfl

variable {st : Settings} {d : Document} {draft : Draft} {fault : RenderFault}

/-- What becomes of a draft, if the host has room for it or not. -/
theorem compile_of_draft (hdraft : (Format.orDefault st.format?).draft d.content = .ok draft)
    (s : Surroundings) :
    ∃ remarks, (compile st d l : StateM Surroundings (Ending ε)) s
      = match l.onDraft (Format.orDefault st.format?) st.indent draft with
        | some e => (.interrupted (.limit e), { s with remarks })
        | none => (deliver st ((Format.orDefault st.format?).finish st.indent draft) :
            StateM Surroundings (Ending ε)) { s with remarks } := by
  unfold compile
  dsimp only
  rw [hdraft]
  dsimp only
  split
  · obtain ⟨remarks, hlog⟩ := logDebug_eq st.logLevel "whylang.cli".toList
      ("parsed ".toList ++ d.name.toList) s
    refine ⟨remarks, ?_⟩
    rw [bind_apply, hlog]
    cases l.onDraft (Format.orDefault st.format?) st.indent draft <;> rfl
  · refine ⟨s.remarks, ?_⟩
    cases l.onDraft (Format.orDefault st.format?) st.indent draft <;> rfl

/-- A rendering for which the host has no room is not delivered. -/
theorem compile_of_limit {e : ε}
    (hdraft : (Format.orDefault st.format?).draft d.content = .ok draft)
    (hlimit : l.onDraft (Format.orDefault st.format?) st.indent draft = some e)
    (s : Surroundings) :
    ∃ remarks, (compile st d l : StateM Surroundings (Ending ε)) s
      = (.interrupted (.limit e), { s with remarks }) := by
  obtain ⟨remarks, hcompile⟩ := compile_of_draft (l := l) hdraft s
  rw [hlimit] at hcompile
  exact ⟨remarks, hcompile⟩

/-- A rendering for which the host has room is delivered. -/
theorem compile_of_room (hdraft : (Format.orDefault st.format?).draft d.content = .ok draft)
    (hroom : l.onDraft (Format.orDefault st.format?) st.indent draft = none)
    (s : Surroundings) :
    ∃ remarks, (compile st d l : StateM Surroundings (Ending ε)) s
      = (deliver st ((Format.orDefault st.format?).finish st.indent draft) :
          StateM Surroundings (Ending ε)) { s with remarks } := by
  obtain ⟨remarks, hcompile⟩ := compile_of_draft (l := l) hdraft s
  rw [hroom] at hcompile
  exact ⟨remarks, hcompile⟩

/-- An error of a document is reported, whatever format the document was to be rendered in. -/
theorem compile_eq_report (st : Settings) (d : Document) {message : String} {span : Span}
    (hdraft : (Format.orDefault st.format?).draft d.content = .error fault)
    (herror : fault.error? = some (message, span)) :
    (compile st d l : StateM Surroundings (Ending ε)) = report st d message span := by
  unfold compile
  dsimp only
  rw [hdraft]
  dsimp only
  rw [herror]

theorem compile_of_error {place : String × Span}
    (hdraft : (Format.orDefault st.format?).draft d.content = .error fault)
    (herror : fault.error? = some place) (s : Surroundings) :
    ((compile st d l : StateM Surroundings (Ending ε)) s).1 = .returned 1 := by
  obtain ⟨message, span⟩ := place
  rw [compile_eq_report st d hdraft herror]
  rfl

/-- A fault that is no error of a document is not reported. -/
theorem compile_of_fault
    (hdraft : (Format.orDefault st.format?).draft d.content = .error fault)
    (hnone : fault.error? = none) (s : Surroundings) :
    ((compile st d l : StateM Surroundings (Ending ε)) s).1 = .interrupted (.render fault) := by
  unfold compile
  dsimp only
  rw [hdraft]
  dsimp only
  rw [hnone]
  rfl

/-! ## Causes by the draft -/

section Causes

variable {files : FileTree} {content : Bytes} {cause : Interruption ε}

/-- Only an expression can be too much for a host. -/
theorem exists_expr_of_onDraft {f : Format} {indent : Bool} {e : ε}
    (h : l.onDraft f indent draft = some e) :
    ∃ expr, draft = .expr expr ∧ l.rendering f indent expr = some e := by
  cases draft with
  | expr expr => exact ⟨expr, rfl, h⟩
  | listing text => cases h

/-- A text that has a draft meets no literal of too many digits. -/
theorem not_meetsOverlong_of_draft {f : Format} (hdraft : f.draft content = .ok draft) :
    ¬ f.MeetsOverlong content := by
  intro hmeets
  cases hdraft.symm.trans (Format.draft_fault_iff.2 ⟨rfl, hmeets⟩).1

/-- Where the host has no room, nothing else goes wrong. -/
theorem undone_iff_of_limit {e : ε}
    (hdraft : (Format.orDefault st.format?).draft content = .ok draft)
    (hlimit : l.onDraft (Format.orDefault st.format?) st.indent draft = some e) :
    Undone l files st content cause ↔ cause = .limit e := by
  constructor
  · intro h
    cases h with
    | overlong hmeets => exact absurd hmeets (not_meetsOverlong_of_draft hdraft)
    | limit hdraft' hlimit' =>
      cases hdraft.symm.trans hdraft'
      cases hlimit.symm.trans hlimit'
      rfl
    | unwritten hdraft' hroom =>
      cases hdraft.symm.trans hdraft'
      cases hlimit.symm.trans hroom
  · rintro rfl
    obtain ⟨expr, rfl, hexpr⟩ := exists_expr_of_onDraft hlimit
    exact Undone.limit hdraft hexpr

/-- Where the host has room for a rendering, only its place can be wrong. -/
theorem undone_iff_of_room
    (hdraft : (Format.orDefault st.format?).draft content = .ok draft)
    (hroom : l.onDraft (Format.orDefault st.format?) st.indent draft = none) :
    Undone l files st content cause ↔ ∃ p f, st.output? = some p ∧
      files.write p (encode ((Format.orDefault st.format?).finish st.indent draft)) = .error f ∧
        cause = .file p f := by
  constructor
  · intro h
    cases h with
    | overlong hmeets => exact absurd hmeets (not_meetsOverlong_of_draft hdraft)
    | limit hdraft' hlimit =>
      cases hdraft.symm.trans hdraft'
      cases hroom.symm.trans hlimit
    | @unwritten draft' p f hdraft' _ hplace hwrite =>
      cases hdraft.symm.trans hdraft'
      exact ⟨p, f, hplace, hwrite, rfl⟩
  · rintro ⟨p, f, hplace, hwrite, rfl⟩
    exact Undone.unwritten hdraft hroom hplace hwrite

/-- Where there is no draft, it is for the literal, unless there is an error to report. -/
theorem undone_iff_of_error
    (hdraft : (Format.orDefault st.format?).draft content = .error fault) :
    Undone l files st content cause ↔ fault.error? = none ∧ cause = .render fault := by
  constructor
  · intro h
    cases h with
    | overlong hmeets =>
      obtain ⟨hdraft', herror⟩ := Format.draft_fault_iff.2 ⟨rfl, hmeets⟩
      cases hdraft.symm.trans hdraft'
      exact ⟨herror, rfl⟩
    | limit hdraft' => cases hdraft.symm.trans hdraft'
    | unwritten hdraft' => cases hdraft.symm.trans hdraft'
  · rintro ⟨herror, rfl⟩
    obtain ⟨rfl, hmeets⟩ := Format.draft_fault_iff.1 ⟨hdraft, herror⟩
    exact Undone.overlong hmeets

end Causes

/--
**The rendering of a document is interrupted by a literal of too many digits, because the host has
no room for it, or because it cannot be written.**
-/
theorem compile_follows (st : Settings) (d : Document) (s : Surroundings) :
    ((compile st d l : StateM Surroundings (Ending ε)) s).1.Follows
      (Undone l s.files st d.content) := by
  cases hdraft : (Format.orDefault st.format?).draft d.content with
  | ok draft =>
    cases hroom : l.onDraft (Format.orDefault st.format?) st.indent draft with
    | some e =>
      obtain ⟨remarks, hcompile⟩ := compile_of_limit hdraft hroom s
      rw [hcompile]
      exact Ending.follows_interrupted ((undone_iff_of_limit hdraft hroom).2 rfl)
        fun _ h => (undone_iff_of_limit hdraft hroom).1 h
    | none =>
      obtain ⟨remarks, hcompile⟩ := compile_of_room hdraft hroom s
      rw [hcompile]
      exact (deliver_follows st _ _).congr fun _ => (undone_iff_of_room hdraft hroom).symm
  | error fault =>
    cases herror : fault.error? with
    | some place =>
      rw [compile_of_error hdraft herror]
      apply Ending.follows_returned (by decide)
      intro cause h
      cases herror.symm.trans ((undone_iff_of_error hdraft).1 h).1
    | none =>
      rw [compile_of_fault hdraft herror]
      exact Ending.follows_interrupted ((undone_iff_of_error hdraft).2 ⟨herror, rfl⟩)
        fun _ h => ((undone_iff_of_error hdraft).1 h).2

/-! ## Documents -/

/-- What goes wrong with a document that the command is not prepared for. -/
inductive Unserved (l : Limits ε) (s : Surroundings) (st : Settings) :
    Interruption ε → Prop where
  /-- The path of the document holds a character that no path may have. -/
  | badPath (h : '\x00' ∈ st.input.toText) : Unserved l s st (.file st.input .badCharacter)
  /-- The document was read, but not its rendering done. -/
  | undone {content : Bytes} {cause : Interruption ε} (hcontent : contentIn s st = .ok content)
      (h : Undone l s.files st content cause) : Unserved l s st cause

/-- A document is refused for its path exactly if that holds a character that no path may have. -/
theorem contentIn_badCharacter_iff (s : Surroundings) (st : Settings) :
    contentIn s st = .error .badCharacter ↔ '\x00' ∈ st.input.toText := by
  unfold contentIn
  split
  next hinput =>
    rw [hinput]
    exact ⟨nofun, fun h => absurd h (by decide)⟩
  next =>
    constructor
    · intro hread
      rcases FileTree.cases_of_read hread with ⟨-, hbad⟩ | ⟨-, hway⟩
      · exact hbad
      · simp [FileTree.wayFaults] at hway
    · exact FileTree.read_of_badCharacter

theorem runSettings_follows (st : Settings) (s : Surroundings) :
    ((runSettings st l : StateM Surroundings (Ending ε)) s).1.Follows (Unserved l s st) := by
  obtain ⟨name, remarks, hload⟩ := loadDocument_eq st s
  have hbad_iff := contentIn_badCharacter_iff s st
  unfold runSettings
  rw [bind_apply, hload]
  cases hcontent : contentIn s st with
  | ok content =>
    refine (compile_follows st { name, content } { s with remarks }).congr fun cause => ⟨?_, ?_⟩
    · intro h
      exact Unserved.undone hcontent h
    · intro h
      cases h with
      | badPath hbad => cases hcontent.symm.trans (hbad_iff.2 hbad)
      | undone hcontent' h =>
        cases hcontent.symm.trans hcontent'
        exact h
  | error f =>
    -- all faults but one are remarked upon, and the run returns 2
    have hundone {content : Bytes} : contentIn s st ≠ .ok content := by
      rw [hcontent]
      exact nofun
    cases f with
    | badCharacter =>
      apply Ending.follows_interrupted (Unserved.badPath (hbad_iff.1 hcontent))
      intro cause h
      cases h with
      | badPath => rfl
      | undone hcontent' => exact absurd hcontent' hundone
    | _ =>
      apply Ending.follows_returned (Nat.le_refl 2)
      intro cause h
      cases h with
      | badPath hbad => cases hcontent.symm.trans (hbad_iff.2 hbad)
      | undone hcontent' => exact absurd hcontent' hundone

/-! ## Runs -/

/-- What is wrong with a run that the command is not prepared for. -/
inductive Unforeseen (l : Limits ε) (a : Arguments) (s : Surroundings) :
    Interruption ε → Prop where
  /-- The settings are not found, but not refused either. -/
  | settings {f : SettingsFault ε} (h : Settings.Unsettled l s.files a f) :
      Unforeseen l a s (.settings f)
  /-- The document cannot be read, or not be rendered. -/
  | document {st : Settings} {cause : Interruption ε}
      (hst : Settings.settle l s.files a = .ok st) (h : Unserved l s st cause) :
      Unforeseen l a s cause

theorem runArguments_follows (a : Arguments) (s : Surroundings) :
    ((runArguments a l : StateM Surroundings (Ending ε)) s).1.Follows (Unforeseen l a s) := by
  have hfault_iff (f : SettingsFault ε) : (Settings.settle l s.files a = .error f ∧
      f.message? = none) ↔ Settings.Unsettled l s.files a f := Settings.settle_fault_iff
  unfold runArguments
  rw [bind_apply, resolve_eq]
  cases hsettle : Settings.settle l s.files a with
  | ok st =>
    refine (runSettings_follows st s).congr fun cause => ⟨Unforeseen.document hsettle, ?_⟩
    intro h
    cases h with
    | settings h => cases hsettle.symm.trans ((hfault_iff _).2 h).1
    | document hst h =>
      cases hsettle.symm.trans hst
      exact h
  | error f =>
    dsimp only
    -- settings that are refused with a message are what the command is prepared for
    cases hmessage : f.message? with
    | some message =>
      apply Ending.follows_returned (Nat.le_refl 2)
      intro cause h
      cases h with
      | settings h =>
        obtain ⟨hfault, hunsaid⟩ := (hfault_iff _).2 h
        cases hsettle.symm.trans hfault
        cases hmessage.symm.trans hunsaid
      | document hst => cases hsettle.symm.trans hst
    | none =>
      apply Ending.follows_interrupted
        (Unforeseen.settings ((hfault_iff f).1 ⟨hsettle, hmessage⟩))
      intro cause h
      cases h with
      | settings h =>
        cases hsettle.symm.trans ((hfault_iff _).2 h).1
        rfl
      | document hst => cases hsettle.symm.trans hst

/-- No run is interrupted by a log level without a value if all options have one. -/
theorem not_unforeseen_of_valued {a : Arguments} {s : Surroundings} (h : a.Valued) :
    ¬ Unforeseen l a s (.settings .blankLogLevel) := by
  intro hcause
  cases hcause with
  | settings hunsettled =>
    cases hunsettled with
    | unread hunread => cases hunread
    | unmerged _ hunmerged =>
      cases hunmerged with
      | blankLogLevel _ _ hblank => exact h.logLevel_ne hblank
  | document _ hunserved =>
    cases hunserved with
    | undone _ hundone => cases hundone

/--
**A run whose arguments were read returns 0, 1 or 2, unless something is wrong that the command is
not prepared for**, and then it is interrupted by just that. An option without a value is nothing
that can be wrong where two dashes are a text.
-/
theorem ending_of_arguments {texts : List (List Char)} {c : Conventions} {l : Limits ε}
    {a : Arguments} {s : Surroundings} (hread : Reading.ofTexts texts c = .arguments a) :
    (∀ cause, (runOn texts s c l).1 = .interrupted cause ↔ Unforeseen l a s cause) ∧
      ((∀ cause, ¬ Unforeseen l a s cause) →
        ∃ code ≤ 2, (runOn texts s c l).1 = .returned code) ∧
      (c.dashesAreText = true → ¬ Unforeseen l a s (.settings .blankLogLevel)) := by
  have hrun : runOn texts s c l = (runArguments a l : StateM Surroundings (Ending ε)) s := by
    unfold runOn run readArguments
    rw [hread]
    rfl
  rw [hrun]
  obtain ⟨hinterrupted, hreturned⟩ := runArguments_follows (l := l) a s
  exact ⟨hinterrupted, hreturned, fun hc => not_unforeseen_of_valued (valued_of_ofTexts hc hread)⟩

/-- A rendering that has to go into a directory that is missing interrupts the run, and so does an
expression that is too deep for the host. -/
theorem ending_of_arguments_interrupted :
    let texts := ["in.why".toList, "-o".toList, "out/1".toList]
    let a : Arguments := { input := "in.why".toList, output := .value "out/1".toList }
    let s (content : Bytes) : Surroundings :=
      { files := .ofWorkingDirectory [(["in.why".toList], .file content)] }
    Reading.ofTexts texts .late = .arguments a ∧
      (runOn texts (s [0x31]) .late (.ofDepth 0)).1
        = .interrupted (.file (.ofString "out/1") .notFound) ∧
      (runOn texts (s [0x31, 0x2B, 0x31]) .late (.ofDepth 0)).1 = .interrupted (.limit ()) := by
  intro texts a s
  let st : Settings := { input := .ofString "in.why", output? := some (.ofString "out/1") }
  have hread : Reading.ofTexts texts .late = .arguments a := by decide +kernel
  have hmissing : Unforeseen (Limits.ofDepth 0) a (s [0x31])
      (.file (.ofString "out/1") .notFound) := by
    have hsettle : Settings.settle (Limits.ofDepth 0) (s [0x31]).files a = .ok st := by cbv
    have hcontent : contentIn (s [0x31]) st = .ok [0x31] := by decide +kernel
    have hdraft : (Format.orDefault st.format?).draft [0x31] = .ok (.expr (.constant 1)) := by cbv
    have hfinish : (Format.orDefault st.format?).finish st.indent (.expr (.constant 1))
        = ['1', '\n'] := by cbv
    have hwrite : (s [0x31]).files.write (.ofString "out/1")
        (encode ((Format.orDefault st.format?).finish st.indent (.expr (.constant 1))))
          = .error .notFound := by
      rw [hfinish]
      cbv
    have hroom : (Limits.ofDepth 0).onDraft (Format.orDefault st.format?) st.indent
        (.expr (.constant 1)) = none := by cbv
    exact Unforeseen.document hsettle
      (Unserved.undone hcontent (Undone.unwritten hdraft hroom rfl hwrite))
  have hdeep : Unforeseen (Limits.ofDepth 0) a (s [0x31, 0x2B, 0x31]) (.limit ()) := by
    have hsettle : Settings.settle (Limits.ofDepth 0) (s [0x31, 0x2B, 0x31]).files a = .ok st := by
      cbv
    have hcontent : contentIn (s [0x31, 0x2B, 0x31]) st = .ok [0x31, 0x2B, 0x31] := by
      decide +kernel
    have hdraft : (Format.orDefault st.format?).draft [0x31, 0x2B, 0x31]
        = .ok (.expr (.binary .add (.constant 1) (.constant 1))) := by cbv
    have hlimit : (Limits.ofDepth 0).rendering (Format.orDefault st.format?) st.indent
        (.binary .add (.constant 1) (.constant 1)) = some () := by cbv
    exact Unforeseen.document hsettle (Unserved.undone hcontent (Undone.limit hdraft hlimit))
  obtain ⟨hinterrupted, -⟩ := ending_of_arguments (l := .ofDepth 0) (s := s [0x31]) hread
  obtain ⟨hinterrupted', -⟩ :=
    ending_of_arguments (l := .ofDepth 0) (s := s [0x31, 0x2B, 0x31]) hread
  exact ⟨hread, (hinterrupted _).2 hmissing, (hinterrupted' _).2 hdeep⟩

/-- A configuration of malformed text interrupts a run that would have returned 0 without it, also
on a host without limits. -/
theorem not_returned_of_malformed_config :
    ¬ ∀ (texts : List (List Char)) (c : Conventions) (a : Arguments) (s : Surroundings),
      Reading.ofTexts texts c = .arguments a →
        ∃ code ≤ 2, (runOn texts s c : Ending × Surroundings).1 = .returned code := by
  intro h
  let texts := ["in.why".toList]
  let files : FileTree :=
    .ofWorkingDirectory [(["in.why".toList], .file [0x31]), (["whylang.toml".toList], .file [0xFF])]
  let s : Surroundings := { files }
  have hread : Reading.ofTexts texts .late = .arguments { input := "in.why".toList } := by
    decide +kernel
  have hending : (runOn texts s .late : Ending × Surroundings).1
      = .interrupted (.settings .malformedText) := by cbv
  obtain ⟨code, -, hcode⟩ := h texts _ _ s hread
  rw [hending] at hcode
  cases hcode

end Arith.Command
