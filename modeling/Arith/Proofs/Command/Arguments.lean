import Arith.Command.Arguments

/-!
# Options without a value

Where two dashes are a text, no option is ever given without a value (`valued_of_ofTexts`): setting
an option gives it one, and all other steps leave the options as they are or switch one on that
needs none.
-/

namespace Arith.Command

/-- No option is given without a value. -/
structure Arguments.Valued (a : Arguments) : Prop where
  output_ne : a.output ≠ .blank
  format_ne : a.format ≠ .blank
  config_ne : a.config ≠ .blank
  logLevel_ne : a.logLevel ≠ .blank

namespace Partial

variable {c : Conventions} {p p' : Partial} {f : ValueFlag} {text : List Char}

theorem givenText_of_dashesAreText (hc : c.dashesAreText = true) (text : List Char) :
    givenText c text = .value text := by
  simp [givenText, hc]

theorem givenFormat_ne_blank (hc : c.dashesAreText = true) {format : Given Format}
    (h : givenFormat c text = .ok format) : format ≠ .blank := by
  unfold givenFormat at h
  rw [givenText_of_dashesAreText hc] at h
  dsimp only at h
  split at h
  · cases h
    exact nofun
  · cases h

/-- An option that is set has a value. -/
theorem valued_of_set (hc : c.dashesAreText = true) (hp : p.given.Valued)
    (h : p.set c f text = .ok p') : p'.given.Valued := by
  cases f with
  | output =>
    cases h
    exact { hp with output_ne := by simp [givenText_of_dashesAreText hc] }
  | config =>
    cases h
    exact { hp with config_ne := by simp [givenText_of_dashesAreText hc] }
  | logLevel =>
    cases h
    exact { hp with logLevel_ne := by simp [givenText_of_dashesAreText hc] }
  | format =>
    cases hformat : givenFormat c text with
    | error r =>
      rw [set, hformat] at h
      cases h
    | ok format =>
      rw [set, hformat] at h
      cases h
      exact { hp with format_ne := givenFormat_ne_blank hc hformat }

theorem valued_of_finish {a : Arguments} (hp : p.given.Valued) (h : p.finish = .arguments a) :
    a.Valued := by
  unfold finish at h
  split at h
  · cases h
  · split at h
    · cases h
      exact { hp with }
    · cases h

end Partial

variable {c : Conventions} {p : Partial} {texts : List (List Char)} {a : Arguments}

/-- Reading on gives all options that it sets a value. -/
theorem valued_of_readWords (hc : c.dashesAreText = true) {words : List Word}
    (hp : p.given.Valued) (h : readWords c p words = .arguments a) : a.Valued := by
  fun_induction readWords c p words
  case case1 => exact Partial.valued_of_finish hp h
  -- an argument is taken or left over, and the options stay as they are
  case case2 ih | case3 ih | case4 ih | case5 ih | case6 ih | case7 ih => exact ih hp h
  -- an option is set
  case case9 hset ih | case11 hset ih => exact ih (Partial.valued_of_set hc hp hset) h
  case case14 ih => exact ih { hp with } h
  -- the arguments are refused, or help is asked for
  all_goals cases h

/-- **Where two dashes are a text, all options are given with a value.** -/
theorem valued_of_ofTexts (hc : c.dashesAreText = true)
    (h : Reading.ofTexts texts c = .arguments a) : a.Valued := by
  unfold Reading.ofTexts at h
  split at h
  · cases h
  · refine valued_of_readWords hc ?_ h
    exact ⟨nofun, nofun, nofun, nofun⟩

end Arith.Command
