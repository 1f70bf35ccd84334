import Arith.Command.Settings
import Arith.Proofs.Files.Faults
import Arith.Proofs.Text.Encoding

/-!
# Why there are no settings

Settings that are wrong in a way that the command is prepared for are refused with a message
(`SettingsFault.message?`). If there are none without a message, the configuration cannot be read
(`Unread`), or it can, but cannot be put together with the arguments (`Unmerged`). On both ways the
host can run out of room.
-/

namespace Arith.Command.Settings

open Utf8

/-! ## The configuration -/

variable {ε : Type}

/-- The configuration that files hold at a path: none is there if there is no file. -/
def configIn (l : Limits ε) (files : FileTree) (p : Path) :
    Except (SettingsFault ε) Toml.Table :=
  match files.read p with
  | .ok content => readConfig l content
  | .error fault => if fault.isAbsence then .ok [] else .error (.file p fault)

/-- What is wrong with a configuration that the command is not prepared for. -/
inductive Unread (l : Limits ε) (files : FileTree) (p : Path) : SettingsFault ε → Prop where
  | nameTooLong (hread : files.read p = .error .nameTooLong) :
      Unread l files p (.file p .nameTooLong)
  | malformedText {content : Bytes} (hread : files.read p = .ok content)
      (htext : ∀ text, content ≠ encode text) : Unread l files p .malformedText
  | longNumeral {text : List Char} (hread : files.read p = .ok (encode text))
      (hlong : Toml.read l.toLimits text = .error (.fault .numeralTooLong)) :
      Unread l files p .longNumeral
  /-- The host has no room to read a value. -/
  | limit {text : List Char} {e : ε} (hread : files.read p = .ok (encode text))
      (hlimit : Toml.read l.toLimits text = .error (.limit e)) : Unread l files p (.limit e)

variable {l : Limits ε} {files : FileTree} {p : Path} {a : Arguments} {config : Toml.Table}
  {f : SettingsFault ε} {stop : Toml.Stop ε}

/-- Of all that stops the reading of a text, only what is malformed is refused with a message. -/
theorem message?_ofStop :
    (SettingsFault.ofStop stop).message? = none ↔ stop ≠ .fault .malformed := by
  cases stop with
  | fault g => cases g <;> simp [SettingsFault.ofStop, SettingsFault.message?]
  | limit e => simp [SettingsFault.ofStop, SettingsFault.message?]

theorem readConfig_encode (text : List Char) :
    readConfig l (encode text) = (Toml.read l.toLimits text).mapError .ofStop := by
  unfold readConfig
  rw [decode?_encode]

/-- A text is not read, but not refused with a message either. -/
theorem readConfig_encode_fault_iff (text : List Char) :
    (readConfig l (encode text) = .error f ∧ f.message? = none) ↔
      ∃ stop, Toml.read l.toLimits text = .error stop ∧ stop ≠ .fault .malformed ∧
        f = .ofStop stop := by
  rw [readConfig_encode]
  cases Toml.read l.toLimits text with
  | ok config => exact ⟨(nomatch ·.1), fun ⟨_, h, _⟩ => nomatch h⟩
  | error stop =>
    constructor
    · rintro ⟨h, hunsaid⟩
      cases h
      exact ⟨stop, rfl, message?_ofStop.1 hunsaid, rfl⟩
    · rintro ⟨stop', h, hstop, rfl⟩
      cases h
      exact ⟨rfl, message?_ofStop.2 hstop⟩

theorem readConfig_of_malformed {content : Bytes} (h : ∀ text, content ≠ encode text) :
    readConfig l content = .error .malformedText := by
  unfold readConfig
  cases hdecode : decode? content with
  | none => rfl
  | some text => exact absurd (decode?_eq_some_iff.1 hdecode) (h text)

theorem configIn_fault_iff :
    (configIn l files p = .error f ∧ f.message? = none) ↔ Unread l files p f := by
  constructor
  · rintro ⟨h, hunsaid⟩
    unfold configIn at h
    cases hread : files.read p with
    | error g =>
      rw [hread] at h
      dsimp only at h
      split at h
      · cases h
      next hpresent =>
        cases h
        obtain rfl := FileTree.eq_nameTooLong_of_read hread (Bool.eq_false_iff.mpr hpresent)
        exact Unread.nameTooLong hread
    | ok content =>
      rw [hread] at h
      dsimp only at h
      by_cases htext : ∃ text, content = encode text
      · obtain ⟨text, rfl⟩ := htext
        obtain ⟨stop, hstop, hne, rfl⟩ := (readConfig_encode_fault_iff text).1 ⟨h, hunsaid⟩
        cases stop with
        | limit e => exact Unread.limit hread hstop
        | fault g =>
          cases g with
          | malformed => exact absurd rfl hne
          | numeralTooLong => exact Unread.longNumeral hread hstop
      · have htext := not_exists.1 htext
        rw [readConfig_of_malformed htext] at h
        cases h
        exact Unread.malformedText hread htext
  · intro h
    unfold configIn
    cases h with
    | nameTooLong hread =>
      rw [hread]
      exact ⟨rfl, rfl⟩
    | malformedText hread htext =>
      rw [hread]
      exact ⟨readConfig_of_malformed htext, rfl⟩
    | longNumeral hread hlong =>
      rw [hread]
      exact (readConfig_encode_fault_iff _).2 ⟨_, hlong, by simp, rfl⟩
    | limit hread hlimit =>
      rw [hread]
      exact (readConfig_encode_fault_iff _).2 ⟨_, hlimit, by simp, rfl⟩

/-! ## Arguments and configuration together -/

/-- What is wrong with arguments and a configuration that the command is not prepared for. -/
inductive Unmerged (l : Limits ε) (a : Arguments) (config : Toml.Table) :
    SettingsFault ε → Prop where
  /-- The format is no known one, and there is an integer of too many digits in it. -/
  | longFormat {value : Toml.Value}
      (hvalue : (config.within "output").find? "format" = some value)
      (hunknown : formatNamed? value = none)
      (hlong : value.stop? l.toLimits 0 = some (.fault .numeralTooLong)) :
      Unmerged l a config .longNumeral
  /-- The format is no known one, and the host has no room to write it into a message. -/
  | limit {value : Toml.Value} {e : ε}
      (hvalue : (config.within "output").find? "format" = some value)
      (hunknown : formatNamed? value = none)
      (hlimit : value.stop? l.toLimits 0 = some (.limit e)) : Unmerged l a config (.limit e)
  /-- The log level is given without a value. -/
  | blankLogLevel {format : Format} {level : LogLevel}
      (hformat : configFormat l config = .ok format)
      (hlevel : configLogLevel (ε := ε) config = .ok level) (hblank : a.logLevel = .blank) :
      Unmerged l a config .blankLogLevel

/-- A value that is no format is refused, unless something stops the writing of it. -/
theorem formatOf_eq_error_iff {value : Toml.Value} :
    formatOf l value = .error f ↔ formatNamed? value = none ∧
      f = (value.stop? l.toLimits 0).elim (.badFormat value) .ofStop := by
  unfold formatOf
  cases formatNamed? value with
  | some format => simp
  | none => cases value.stop? l.toLimits 0 <;> simp [eq_comm]

theorem configFormat_eq_error_iff :
    configFormat l config = .error f ↔
      ∃ value, (config.within "output").find? "format" = some value ∧
        formatOf l value = .error f := by
  unfold configFormat
  cases (config.within "output").find? "format" <;> simp

theorem configFormat_fault_iff :
    (configFormat l config = .error f ∧ f.message? = none) ↔
      ∃ value stop, (config.within "output").find? "format" = some value ∧
        formatNamed? value = none ∧ value.stop? l.toLimits 0 = some stop ∧
        stop ≠ .fault .malformed ∧ f = .ofStop stop := by
  simp only [configFormat_eq_error_iff, formatOf_eq_error_iff]
  constructor
  · rintro ⟨⟨value, hvalue, hunknown, rfl⟩, hunsaid⟩
    cases hstop : value.stop? l.toLimits 0 with
    | none =>
      rw [hstop] at hunsaid
      cases hunsaid
    | some stop =>
      rw [hstop] at hunsaid
      exact ⟨value, stop, hvalue, hunknown, hstop, message?_ofStop.1 hunsaid, rfl⟩
  · rintro ⟨value, stop, hvalue, hunknown, hstop, hne, rfl⟩
    refine ⟨⟨value, hvalue, hunknown, ?_⟩, message?_ofStop.2 hne⟩
    rw [hstop]
    rfl

/-- A name that no log level has is always refused. -/
theorem message?_of_logLevelOf {name : List Char} (h : logLevelOf name = .error f) :
    f.message? ≠ none := by
  unfold logLevelOf at h
  split at h <;> cases h
  exact Option.some_ne_none _

theorem message?_of_configLogLevel (h : configLogLevel config = .error f) :
    f.message? ≠ none := by
  unfold configLogLevel at h
  split at h
  · exact message?_of_logLevelOf h
  · cases h

/-- Arguments and a configuration are looked at in one order: the format of the configuration, its
log level, and then the log level that is given. -/
theorem merge_eq_error_iff :
    merge l a config = .error f ↔ configFormat l config = .error f ∨
      ∃ format, configFormat l config = .ok format ∧ (configLogLevel config = .error f ∨
        ∃ level, configLogLevel (ε := ε) config = .ok level ∧
          ((a.logLevel = .blank ∧ f = .blankLogLevel) ∨
            ∃ name, a.logLevel = .value name ∧ logLevelOf name = .error f)) := by
  unfold merge
  simp only [bind, Except.bind]
  cases configFormat l config with
  | error g => simp
  | ok format =>
    cases configLogLevel (ε := ε) config with
    | error g => simp
    | ok level =>
      cases a.logLevel with
      | unset => simp [pure, Except.pure]
      | blank => simp [eq_comm]
      | value name =>
        dsimp only
        cases hname : logLevelOf (ε := ε) name <;> simp [hname, pure, Except.pure]

theorem merge_fault_iff :
    (merge l a config = .error f ∧ f.message? = none) ↔ Unmerged l a config f := by
  constructor
  · rintro ⟨h, hunsaid⟩
    rcases merge_eq_error_iff.1 h with
      hformat | ⟨format, hformat, hlevel | ⟨level, hlevel, ⟨hblank, rfl⟩ | ⟨name, -, hname⟩⟩⟩
    · obtain ⟨value, stop, hvalue, hunknown, hstop, hne, rfl⟩ :=
        configFormat_fault_iff.1 ⟨hformat, hunsaid⟩
      cases stop with
      | limit e => exact Unmerged.limit hvalue hunknown hstop
      | fault g =>
        cases g with
        | malformed => exact absurd rfl hne
        | numeralTooLong => exact Unmerged.longFormat hvalue hunknown hstop
    · exact absurd hunsaid (message?_of_configLogLevel hlevel)
    · exact Unmerged.blankLogLevel hformat hlevel hblank
    · exact absurd hunsaid (message?_of_logLevelOf hname)
  · intro h
    cases h with
    | longFormat hvalue hunknown hlong =>
      obtain ⟨hformat, hunsaid⟩ := (configFormat_fault_iff (f := .longNumeral)).2
        ⟨_, _, hvalue, hunknown, hlong, by simp, rfl⟩
      exact ⟨merge_eq_error_iff.2 (Or.inl hformat), hunsaid⟩
    | @limit value e hvalue hunknown hlimit =>
      obtain ⟨hformat, hunsaid⟩ := (configFormat_fault_iff (f := .limit e)).2
        ⟨_, _, hvalue, hunknown, hlimit, by simp, rfl⟩
      exact ⟨merge_eq_error_iff.2 (Or.inl hformat), hunsaid⟩
    | blankLogLevel hformat hlevel hblank =>
      refine ⟨merge_eq_error_iff.2 (Or.inr ⟨_, hformat, Or.inr ⟨_, hlevel, ?_⟩⟩), rfl⟩
      exact Or.inl ⟨hblank, rfl⟩

/-- The place of the output is the one that the arguments give. -/
theorem output?_of_merge {st : Settings} (h : merge l a config = .ok st) :
    st.output? = a.output.value?.bind pathOf? := by
  unfold merge at h
  simp only [bind, Except.bind] at h
  split at h
  · cases h
  · split at h
    · cases h
    · -- the log level is the one that is given, or that of the configuration
      split at h
      · cases h
        rfl
      · cases h
      · split at h
        · cases h
        · cases h
          rfl

/-! ## All settings -/

/-- The settings that arguments make with the files around them. -/
def settle (l : Limits ε) (files : FileTree) (a : Arguments) :
    Except (SettingsFault ε) Settings :=
  match configIn l files (configPath a) with
  | .ok config => merge l a config
  | .error fault => .error fault

/-- What is wrong with settings that the command is not prepared for. -/
inductive Unsettled (l : Limits ε) (files : FileTree) (a : Arguments) (f : SettingsFault ε) :
    Prop where
  /-- The configuration cannot be read. -/
  | unread (h : Unread l files (configPath a) f)
  /-- The configuration cannot be put together with the arguments. -/
  | unmerged {config : Toml.Table} (hconfig : configIn l files (configPath a) = .ok config)
      (h : Unmerged l a config f)

/-- **Settings are not found and not refused either if and only if their configuration cannot be
read, or cannot be put together with the arguments.** -/
theorem settle_fault_iff :
    (settle l files a = .error f ∧ f.message? = none) ↔ Unsettled l files a f := by
  unfold settle
  cases hconfig : configIn l files (configPath a) with
  | error g =>
    constructor
    · rintro ⟨h, hunsaid⟩
      cases h
      exact Unsettled.unread (configIn_fault_iff.1 ⟨hconfig, hunsaid⟩)
    · intro h
      cases h with
      | unread h =>
        obtain ⟨hfault, hunsaid⟩ := configIn_fault_iff.2 h
        cases hconfig.symm.trans hfault
        exact ⟨rfl, hunsaid⟩
      | unmerged hok => cases hconfig.symm.trans hok
  | ok config =>
    dsimp only
    rw [merge_fault_iff]
    constructor
    · exact Unsettled.unmerged hconfig
    · intro h
      cases h with
      | unread h => cases hconfig.symm.trans (configIn_fault_iff.2 h).1
      | unmerged hok h =>
        cases hconfig.symm.trans hok
        exact h

theorem output?_of_settle {st : Settings} (h : settle l files a = .ok st) :
    st.output? = a.output.value?.bind pathOf? := by
  unfold settle at h
  split at h
  · exact output?_of_merge h
  · cases h

end Arith.Command.Settings
