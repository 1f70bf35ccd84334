import Arith.Window

/-!
# Scanning goes forward

Taking characters, committing and scanning never move the end of a window back and never change
its text (`Forward`), and the steps that are put together from such steps do not either. A scan
ends where a character stands or the text ends, so the `backtrack` that closes it changes nothing
(`scanWhile_eq`): a scan is a run that is taken, and fails only at malformed bytes.
-/

namespace Arith.Window

/-- The window that a step leaves behind, whether it failed or not. -/
def after {ε α : Type} : EStateM.Result ε Window α → Window
  | .ok _ w => w
  | .error _ w => w

/-- A window over the same text that ends at the same place or further on. -/
structure Reaches (w w' : Window) : Prop where
  source_eq : w'.source = w.source
  stop_le : w.stop ≤ w'.stop

namespace Reaches

theorem refl (w : Window) : w.Reaches w := ⟨rfl, Nat.le_refl _⟩

theorem trans {a b c : Window} (h : a.Reaches b) (h' : b.Reaches c) : a.Reaches c :=
  ⟨h'.source_eq.trans h.source_eq, Nat.le_trans h.stop_le h'.stop_le⟩

/-- What is left becomes shorter by as much as the end moves. -/
theorem length_rest {w w' : Window} (h : w.Reaches w') :
    w'.rest.length + (w'.stop - w.stop) = w.rest.length := by
  have := h.source_eq
  have := h.stop_le
  have := w'.inside
  simp only [Window.length_rest]
  rw [h.source_eq] at *
  omega

end Reaches

/-- A step that never moves the end of the window back. -/
def Forward {ε α : Type} (step : EStateM ε Window α) : Prop :=
  ∀ w : Window, w.Reaches (after (step w))

namespace Forward

variable {ε α β : Type}

theorem pure (a : α) : Forward (Pure.pure a : EStateM ε Window α) := fun w => .refl w

theorem throw (e : ε) : Forward (MonadExcept.throw e : EStateM ε Window α) := fun w => .refl w

theorem get : Forward (MonadState.get : EStateM ε Window Window) := fun w => .refl w

theorem bind {x : EStateM ε Window α} {f : α → EStateM ε Window β} (hx : Forward x)
    (hf : ∀ a, Forward (f a)) : Forward (x >>= f) := by
  intro w
  have h := hx w
  change w.Reaches (after (EStateM.bind x f w))
  unfold EStateM.bind
  cases hr : x w with
  | error e w' => rw [hr] at h; exact h
  | ok a w' => rw [hr] at h; exact h.trans (hf a w')

theorem adaptExcept {δ : Type} {x : EStateM ε Window α} (hx : Forward x) (f : ε → δ) :
    Forward (EStateM.adaptExcept f x) := by
  intro w
  have h := hx w
  unfold EStateM.adaptExcept
  cases hr : x w with
  | error e w' => rw [hr] at h; exact h
  | ok a w' => rw [hr] at h; exact h

end Forward

/-! ## Taking -/

theorem forward_take : Forward take := by
  intro w
  unfold take
  split
  · exact ⟨rfl, Nat.le_refl _⟩
  · exact .refl w
  · exact ⟨rfl, Nat.le_add_right _ _⟩

/-- A character that was taken has moved the end of the window. -/
theorem stop_lt_of_take {w w' : Window} {c : Char} (h : take w = .ok (some c) w') :
    w.stop < w'.stop := by
  unfold take at h
  split at h
  · cases h
  · cases h
  next c width fits found =>
    cases h
    unfold ahead at found
    split at found
    · cases found
    · split at found
      · cases found
      next hd =>
        cases found
        have := Utf8.width_pos_of_decodeHead hd
        simp only [push]; omega

theorem forward_advance : Forward advance := fun _ => ⟨rfl, Nat.le_refl _⟩

/-! ## Scanning -/

/-- Behind a run that met nothing malformed stands a character or nothing. -/
theorem drop_width_runOf {test : Char → Bool} {text : Bytes}
    (h : (runOf test text).fault = none) :
    text.drop (runOf test text).width = [] ∨
      ∃ lead rest, text.drop (runOf test text).width = lead :: rest ∧
        Utf8.isContinuation lead = false := by
  fun_induction runOf test text with
  | case1 => exact .inl rfl
  | case2 => cases h
  | case3 lead rest c width found _ behind ih =>
    have hpos := Utf8.width_pos_of_decodeHead found
    have hd : (lead :: rest).drop (width + behind.width)
        = (rest.drop (width - 1)).drop behind.width := by
      rw [List.drop_drop, show width + behind.width = (width - 1 + behind.width) + 1 by omega,
        List.drop_succ_cons]
    simp only [hd]
    exact ih h
  | case4 lead rest c width found =>
    exact .inr ⟨lead, rest, rfl, Utf8.isContinuation_of_decodeHead found⟩

/-- The end of a window is a boundary if no continuation byte stands behind it. -/
theorem isBoundary_stop {w : Window}
    (h : w.rest = [] ∨ ∃ lead rest, w.rest = lead :: rest ∧ Utf8.isContinuation lead = false) :
    Utf8.isBoundary w.source w.stop = true := by
  unfold Utf8.isBoundary
  split
  · rfl
  next hends =>
    rw [if_neg (by omega)]
    rcases h with h | ⟨lead, rest, h, hc⟩
    · exact absurd ((atEnd_iff w).1 (by simp [atEnd, h])) (by omega)
    · have hget : w.source[w.stop]? = some lead := by
        have := congrArg (fun l : Bytes => l[0]?) h
        simpa [Window.rest] using this
      simp [hget, hc]

/-- Going to where the window ends changes nothing. -/
theorem backtrack_stop {w : Window} (h : Utf8.isBoundary w.source w.stop = true) :
    backtrack w.stop w = .ok () w := by
  have := w.ordered
  have := w.inside
  unfold backtrack
  rw [dif_neg (by omega)]
  simp [h]

/-- Where a run ended, the window can go back to its end. -/
theorem backtrack_stop_of_takeRun {test : Char → Bool} {w w' : Window}
    (h : takeRun test w = .ok () w') : backtrack w'.stop w' = .ok () w' := by
  refine backtrack_stop (isBoundary_stop ?_)
  unfold takeRun at h
  dsimp only at h
  split at h
  · cases h
  next hf =>
    cases h
    have := drop_width_runOf hf
    simpa [Window.rest, List.drop_drop] using this

/-- A scan takes a run, and says whether it holds a character. -/
theorem scanWhile_eq (test : Char → Bool) (w : Window) :
    scanWhile test w = match takeRun test w with
      | .ok _ w' => .ok (decide (w.stop < w'.stop)) w'
      | .error f w' => .error f w' := by
  change EStateM.bind (takeRun test) _ w = _
  unfold EStateM.bind
  cases hr : takeRun test w with
  | error f w' => rfl
  | ok a w' =>
    change EStateM.bind (backtrack w'.stop) _ w' = _
    unfold EStateM.bind
    rw [backtrack_stop_of_takeRun hr]
    rfl

/-- Taking a run fails at malformed bytes only, and they stand behind the window that is left. -/
theorem eq_malformedHere_of_takeRun {test : Char → Bool} {w w' : Window} {f : Fault}
    (h : takeRun test w = .error f w') : ∃ m, f = w'.malformedHere m := by
  unfold takeRun at h
  dsimp only at h
  split at h
  next m _ => cases h; exact ⟨m, rfl⟩
  · cases h

/-- A scan fails at malformed bytes only, and they stand behind the window that is left. -/
theorem eq_malformedHere_of_scanWhile {test : Char → Bool} {w w' : Window} {f : Fault}
    (h : scanWhile test w = .error f w') : ∃ m, f = w'.malformedHere m := by
  rw [scanWhile_eq] at h
  split at h
  · cases h
  next h' => cases h; exact eq_malformedHere_of_takeRun h'

/-- Taking a character fails at malformed bytes only, and leaves the window as it was. -/
theorem eq_malformedHere_of_take {w w' : Window} {f : Fault} (h : take w = .error f w') :
    w' = w ∧ ∃ m, f = w.malformedHere m := by
  unfold take at h
  split at h
  · cases h
  next m _ => cases h; exact ⟨rfl, m, rfl⟩
  · cases h

theorem forward_takeRun (test : Char → Bool) : Forward (takeRun test) := by
  intro w
  unfold takeRun
  dsimp only
  split <;> exact ⟨rfl, Nat.le_add_right _ _⟩

theorem forward_scanWhile (test : Char → Bool) : Forward (scanWhile test) := by
  intro w
  have h := forward_takeRun test w
  rw [scanWhile_eq]
  cases hr : takeRun test w with
  | error f w' => rw [hr] at h; exact h
  | ok a w' => rw [hr] at h; exact h

end Arith.Window
