import Arith.Proofs.Window.Cursor

/-!
# The last character of a window

A window over an encoded text knows the character that ends where the window does. There is one
case in which it does not: at the end of the text nothing can be taken, and an attempt to do so
forgets the last character, although the window still holds it (`Forgetful`). Going to another
position reads the character in front of it anew, but going to where the window ends already leaves
it forgotten (`knowsLast_of_backtrack`).
-/

namespace Arith.Window

open Utf8

variable {text : List Char} {w w' : Window} {c : Cursor text}

/-! ## Knowing and forgetting -/

/--
The last character of a window is the one that ends where the window ends, and there is none just
if the window is empty.
-/
structure KnowsLast (text : List Char) (w : Window) : Prop where
  none_iff : w.last = none ↔ w.stop = w.start
  ends : ∀ ch, w.last = some ch → ∃ before after, text = before ++ ch :: after ∧
    w.stop = (encode (before ++ [ch])).length

/-- A window has no last character although it is not empty. -/
def Forgetful (w : Window) : Prop := w.last = none ∧ w.start < w.stop

/-- A window is empty just if its cursor holds no characters. -/
theorem Shows.stop_eq_start_iff (h : w.Shows c) : w.stop = w.start ↔ c.held = [] := by
  have hpos := length_encode_pos_iff c.held
  have hstop := c.offset_stop
  rw [h.start_eq, h.stop_eq, ← Decidable.not_iff_not, ← ne_eq c.held, ← hpos]
  omega

/-- The character that is held last ends where the window ends. -/
theorem Shows.exists_ends (h : w.Shows c) {ch : Char} (hlast : c.held.getLast? = some ch) :
    ∃ before after, text = before ++ ch :: after ∧ w.stop = (encode (before ++ [ch])).length := by
  obtain ⟨held, hheld⟩ := List.getLast?_eq_some_iff.1 hlast
  refine ⟨text.take c.start ++ held, c.ahead, ?_, ?_⟩
  · have htext := c.append_held_ahead
    rw [hheld] at htext
    simpa using htext.symm
  · rw [List.append_assoc, ← hheld, encode_append, List.length_append, h.stop_eq, c.offset_stop]
    rfl

/-- A window over an encoded text knows its last character unless it has forgotten it. -/
theorem Shows.knowsLast_iff (h : w.Shows c) : KnowsLast text w ↔ ¬ w.Forgetful := by
  have hempty := h.stop_eq_start_iff
  have hordered := w.ordered
  constructor
  · rintro hknows ⟨hnone, hlt⟩
    have := hknows.none_iff.1 hnone
    omega
  · intro hforgot
    have hlast : w.last = c.held.getLast? := by
      rcases h.last_eq with hnone | hlast
      · have hstop : w.stop = w.start :=
          Nat.le_antisymm (Nat.le_of_not_lt fun hlt => hforgot ⟨hnone, hlt⟩) hordered
        rw [hnone, hempty.1 hstop]
        rfl
      · exact hlast
    refine ⟨?_, ?_⟩
    · rw [hlast, List.getLast?_eq_none_iff, hempty]
    · intro ch hch
      exact h.exists_ends (hlast.symm.trans hch)

/-! ## What forgets -/

theorem not_forgetful_of_last {ch : Char} (h : w.last = some ch) : ¬ w.Forgetful := by
  rintro ⟨hnone, -⟩
  rw [h] at hnone
  cases hnone

/-- A window whose last character was read is not forgetful. -/
theorem Shows.not_forgetful (h : w.Shows c) (hlast : w.lastCharacter = .ok w.last) :
    ¬ w.Forgetful := by
  rintro ⟨hnone, hlt⟩
  have hheld := h.standsAt.view.lastCharacter_eq
  rw [hlast, hnone] at hheld
  have := h.stop_eq_start_iff.2 (List.getLast?_eq_none_iff.1 (Except.ok.inj hheld).symm)
  omega

/-- Going to where a window ends changes nothing, and after going elsewhere it is not forgetful. -/
theorem Shows.backtrack_cases (h : w.Shows c) {position : Int}
    (hback : Window.backtrack position w = .ok () w') :
    (w'.stop = position ∧ w'.start = w.start) ∧
      (position = w.stop ∧ w' = w ∨ position ≠ w.stop ∧ ¬ w'.Forgetful) := by
  have hagrees := agrees_backtrack h position
  rw [hback] at hagrees
  rcases Window.backtrack_cases w position with
    ⟨f, hrefused, -⟩ | ⟨-, ⟨hstop, hsame⟩ | ⟨hmoves, moved, -, hstart, hplace, -, hmoved⟩⟩
  · cases hrefused.symm.trans hback
  · cases hsame.symm.trans hback
    exact ⟨⟨hstop.symm, rfl⟩, Or.inl ⟨hstop, rfl⟩⟩
  · -- the last character is read where the window then ends
    cases hlast : moved.lastCharacter with
    | error e =>
      rw [hlast] at hmoved
      cases hmoved.symm.trans hback
    | ok last =>
      rw [hlast] at hmoved
      cases hmoved.symm.trans hback
      exact ⟨⟨hplace, hstart⟩, Or.inr ⟨hmoves, hagrees.2.not_forgetful hlast⟩⟩

/-- Two windows have the same bounds. -/
def SameBounds (w w' : Window) : Prop := w'.start = w.start ∧ w'.stop = w.stop

/-- After a scan a window is forgetful only if it was so, and the scan took nothing. -/
theorem forgetful_scanWhile {test : Char → Bool}
    (hforgot : (outcome some (Window.scanWhile test w)).2.Forgetful) :
    w.Forgetful ∧ SameBounds w (outcome some (Window.scanWhile test w)).2 := by
  obtain ⟨run, rest, hrest, hrun, hstops⟩ := exists_run test w.rest
  have hscan := runOf_encode hrun hstops
  have hlast := last_scanWhile w test
  rw [hrest, hscan, hforgot.1] at hlast
  obtain ⟨hnil, hnone⟩ := Option.or_eq_none_iff.1 hlast.symm
  obtain rfl : run = [] := List.getLast?_eq_none_iff.1 hnil
  obtain ⟨w', htake, -, hstart, hstop⟩ := takeRun_cases test w
  have hafter : (outcome some (Window.scanWhile test w)).2 = w' := by
    rw [scanWhile_eq, htake]
    cases (runOf test w.rest).fault <;> rfl
  rw [hrest, hscan] at hstop
  rw [hafter] at hforgot ⊢
  have hbounds : SameBounds w w' := ⟨hstart, hstop⟩
  refine ⟨⟨hnone, ?_⟩, hbounds⟩
  rw [← hbounds.1, ← hbounds.2]
  exact hforgot.2

/-- An attempt to take a character at the end of the text, when the window holds some. -/
def Forgets (w : Window) (op : Operation) : Prop :=
  op = .take ∧ w.atEnd = true ∧ w.start < w.stop

/-- **A window becomes forgetful only by an attempt to take a character at the end of the text.** -/
theorem Shows.forgetful_perform (h : w.Shows c) {op : Operation}
    (hforgot : (perform w op).2.Forgetful) :
    SameBounds w (perform w op).2 ∧ (w.Forgetful ∨ Forgets w op) := by
  have hsame : SameBounds w w := ⟨rfl, rfl⟩
  cases op with
  | take =>
    rw [perform, Window.take] at hforgot ⊢
    rcases w.ahead_cases with ⟨hahead, hrest⟩ | ⟨m, hahead, -⟩ | ⟨ch, rest, fits, hahead, -⟩
    · rw [hahead] at hforgot ⊢
      exact ⟨hsame, Or.inr ⟨rfl, by rw [atEnd, hrest]; rfl, hforgot.2⟩⟩
    · rw [hahead] at hforgot ⊢
      exact ⟨hsame, Or.inl hforgot⟩
    · rw [hahead] at hforgot
      exact absurd hforgot (not_forgetful_of_last rfl)
  | takeIf test =>
    rw [perform, Window.takeIf] at hforgot ⊢
    rcases w.ahead_cases with ⟨hahead, -⟩ | ⟨m, hahead, -⟩ | ⟨ch, rest, fits, hahead, -⟩
    · rw [hahead] at hforgot ⊢
      exact ⟨hsame, Or.inl hforgot⟩
    · rw [hahead] at hforgot ⊢
      exact ⟨hsame, Or.inl hforgot⟩
    · rw [hahead] at hforgot ⊢
      dsimp only at hforgot ⊢
      by_cases htest : test ch = true
      · rw [if_pos htest] at hforgot
        exact absurd hforgot (not_forgetful_of_last rfl)
      · rw [if_neg htest] at hforgot ⊢
        exact ⟨hsame, Or.inl hforgot⟩
  | peek test => exact ⟨hsame, Or.inl hforgot⟩
  | scanWhile test =>
    obtain ⟨hbefore, hbounds⟩ := forgetful_scanWhile hforgot
    exact ⟨hbounds, Or.inl hbefore⟩
  | scanUntil test =>
    obtain ⟨hbefore, hbounds⟩ := forgetful_scanWhile hforgot
    exact ⟨hbounds, Or.inl hbefore⟩
  | backtrack position =>
    cases hback : Window.backtrack position w with
    | error f w' =>
      have hrefused : (perform w (.backtrack position)).1 = .error f := by rw [perform, hback]; rfl
      rw [h.perform_eq_of_error hrefused] at hforgot ⊢
      exact ⟨hsame, Or.inl hforgot⟩
    | ok u w' =>
      have hafter : (perform w (.backtrack position)).2 = w' := by rw [perform, hback]; rfl
      rw [hafter] at hforgot ⊢
      rcases (h.backtrack_cases hback).2 with ⟨-, rfl⟩ | ⟨-, hknows⟩
      · exact ⟨hsame, Or.inl hforgot⟩
      · exact absurd hforgot hknows
  | advance => exact absurd hforgot.2 (Nat.lt_irrefl _)

/-- Where operations lead to a forgetful window, it was so before, or one of them has forgotten. -/
theorem Shows.forgetful_trace (h : w.Shows c) {ops : List Operation}
    (hforgot : (trace perform w ops).2.Forgetful) :
    w.Forgetful ∧ SameBounds w (trace perform w ops).2 ∨
      ∃ before op after, ops = before ++ op :: after ∧ Forgets (trace perform w before).2 op ∧
        SameBounds (trace perform w before).2 (trace perform w ops).2 := by
  induction ops generalizing w c with
  | nil => exact Or.inl ⟨hforgot, rfl, rfl⟩
  | cons op ops ih =>
    rcases ih (agrees_perform h op).2 hforgot with
      ⟨hnext, hbounds⟩ | ⟨before, op', after, rfl, hlost⟩
    · obtain ⟨hstep, hbefore⟩ := h.forgetful_perform hnext
      have hwhole : SameBounds w (trace perform w (op :: ops)).2 :=
        ⟨hbounds.1.trans hstep.1, hbounds.2.trans hstep.2⟩
      rcases hbefore with hbefore | hlost
      · exact Or.inl ⟨hbefore, hwhole⟩
      · exact Or.inr ⟨[], op, ops, rfl, hlost, hwhole⟩
    · exact Or.inr ⟨op :: before, op', after, rfl, hlost⟩

/-! ## Going to a position -/

/--
**After going to a position, a window knows its last character unless it had forgotten it.** The
window ends at the position then. It does not know the character that ends there just if it ended
there before, and was forgetful: going to where it ends changes nothing. And it was forgetful only
because it had tried to take a character at the end of the text, and stayed where it was.
-/
theorem knowsLast_of_backtrack {text : List Char} {ops : List Operation} {position : Int}
    {w' : Window} (hback : backtrack position (trace perform (ofBytes (encode text)) ops).2
      = .ok () w') :
    let w := (trace perform (ofBytes (encode text)) ops).2
    (w'.stop = position ∧ w'.start = w.start) ∧
      (KnowsLast text w' ↔ ¬ (position = w.stop ∧ w.Forgetful)) ∧
      (position = w.stop → w' = w) ∧
      (w.Forgetful → ∃ before after, ops = before ++ .take :: after ∧
        let v := (trace perform (ofBytes (encode text)) before).2
        v.atEnd = true ∧ v.start < v.stop ∧ SameBounds v w) := by
  intro w
  have hw : w.Shows (trace Cursor.perform (.origin text) ops).2 :=
    (agrees_trace (shows_ofBytes text) ops).2
  have hagrees := agrees_backtrack hw position
  rw [hback] at hagrees
  obtain ⟨hplace, hcases⟩ := hw.backtrack_cases hback
  refine ⟨hplace, ?_, ?_, ?_⟩
  · have hsame : w'.Forgetful ↔ position = w.stop ∧ w.Forgetful := by
      rcases hcases with ⟨hstop, rfl⟩ | ⟨hmoves, hknows⟩
      · exact ⟨fun hforgot => ⟨hstop, hforgot⟩, And.right⟩
      · exact iff_of_false hknows fun hforgot => hmoves hforgot.1
    exact hagrees.2.knowsLast_iff.trans (not_congr hsame)
  · intro hstop
    rcases hcases with ⟨-, hsame⟩ | ⟨hmoves, -⟩
    · exact hsame
    · exact absurd hstop hmoves
  · intro hforgot
    rcases (shows_ofBytes text).forgetful_trace hforgot with ⟨hfresh, -⟩ | hlost
    · -- a window that was not moved yet is empty
      exact absurd hfresh.2 (Nat.lt_irrefl _)
    · obtain ⟨before, op, after, hops, ⟨rfl, hend, hholds⟩, hbounds⟩ := hlost
      exact ⟨before, after, hops, hend, hholds, hbounds⟩

/-- In `a€` both characters are taken and a third one is tried: the window knows the letter when it
goes back behind it, and does not know the other character where it ends. -/
theorem knowsLast_of_backtrack_euro :
    let w := (trace perform (ofBytes (encode ['a', '€'])) [.take, .take, .take]).2
    (∃ w', backtrack 1 w = .ok () w' ∧ w'.last = some 'a' ∧ KnowsLast ['a', '€'] w') ∧
      ∃ w', backtrack 4 w = .ok () w' ∧ w'.last = none ∧ ¬ KnowsLast ['a', '€'] w' := by
  intro w
  have hforgot : w.Forgetful := ⟨rfl, by decide⟩
  have hstop : (w.stop : Int) = 4 := rfl
  obtain ⟨w₁, hback₁, hlast₁⟩ : ∃ w', backtrack 1 w = .ok () w' ∧ w'.last = some 'a' :=
    ⟨_, rfl, rfl⟩
  obtain ⟨w₂, hback₂, hlast₂⟩ : ∃ w', backtrack 4 w = .ok () w' ∧ w'.last = none := ⟨_, rfl, rfl⟩
  obtain ⟨-, hknows₁, -⟩ := knowsLast_of_backtrack hback₁
  obtain ⟨-, hknows₂, -⟩ := knowsLast_of_backtrack hback₂
  refine ⟨⟨w₁, hback₁, hlast₁, hknows₁.2 fun h => ?_⟩, w₂, hback₂, hlast₂, fun h => ?_⟩
  · exact absurd (h.1.trans hstop) (by decide)
  · exact hknows₂.1 h ⟨hstop.symm, hforgot⟩

/-- Going to where a window ends does not bring back the character that it has forgotten. -/
theorem not_knowsLast_forgotten :
    ¬ ∀ (text : List Char) (ops : List Operation) (position : Int) (w' : Window),
      backtrack position (trace perform (ofBytes (encode text)) ops).2 = .ok () w' →
        KnowsLast text w' := by
  intro h
  obtain ⟨w', hback, hlast, hstop⟩ : ∃ w', backtrack 1
      (trace perform (ofBytes (encode ['a'])) [.take, .take]).2 = .ok () w' ∧
        w'.last = none ∧ w'.stop ≠ w'.start := ⟨_, rfl, rfl, by decide⟩
  exact hstop ((h ['a'] [.take, .take] 1 w' hback).none_iff.1 hlast)

end Arith.Window
