import Arith.Proofs.Text.Valid
import Arith.Proofs.Window.View

/-!
# Windows over encoded texts are cursors over characters

A cursor marks two places between the characters of a text, and its operations move them by
characters. A window over the encoded text does the same in bytes: whatever operations are performed
on it, one after the other, it answers as the cursor does, and it stands at the offsets of the
cursor's places (`trace_cursor`). So no bytes are ever malformed, and the only faults are those of
going back to a position that is none. With other bytes behind the encoded characters an operation
that goes forward still does what it does to the cursor, but that it may fail there
(`StandsAt.perform`).
-/

namespace Arith.Window

open Utf8

/-! ## Operations -/

/-- What can be done with a window. -/
inductive Operation where
  | take
  | takeIf (test : Char → Bool)
  | peek (test : Char → Bool)
  | scanWhile (test : Char → Bool)
  | scanUntil (test : Char → Bool)
  | backtrack (position : Int)
  | advance

/-- All operations but that of going back. -/
def Operation.isForward : Operation → Bool
  | .backtrack _ => false
  | _ => true

/-- An answer, which is none for the operations that have nothing to say, or a fault. -/
abbrev Answer := Except Fault (Option Bool)

/-- What a step answers, and the window that it leaves behind, also where it fails. -/
def outcome {α : Type} (answer : α → Option Bool) : EStateM.Result Fault Window α → Answer × Window
  | .ok a w => (.ok (answer a), w)
  | .error f w => (.error f, w)

/-- What an operation answers, and the window that it leaves behind. -/
def perform (w : Window) : Operation → Answer × Window
  | .take => outcome (fun found => some found.isSome) (Window.take w)
  | .takeIf test => outcome some (Window.takeIf test w)
  | .peek test => (.ok (some (w.peek test)), w)
  | .scanWhile test => outcome some (Window.scanWhile test w)
  | .scanUntil test => outcome some (Window.scanUntil test w)
  | .backtrack position => outcome (fun _ => none) (Window.backtrack position w)
  | .advance => outcome (fun _ => none) (Window.advance w)

/-- What is answered to some operations one after the other, and the state that they lead to. -/
def trace {σ : Type} (perform : σ → Operation → Answer × σ) (s : σ) :
    List Operation → List Answer × σ
  | [] => ([], s)
  | op :: ops =>
    let (answer, s') := perform s op
    let (answers, final) := trace perform s' ops
    (answer :: answers, final)

/-! ## Cursors -/

/-- Two places between the characters of a text, in order. -/
@[ext] structure Cursor (text : List Char) where
  start : Nat
  stop : Nat
  ordered : start ≤ stop := by omega
  inside : stop ≤ text.length := by omega

namespace Cursor

variable {text : List Char}

/-- Both places are the same. -/
def point (place : Nat) (h : place ≤ text.length) : Cursor text where
  start := place
  stop := place
  ordered := Nat.le_refl place
  inside := h

/-- Both places are at the beginning. -/
def origin (text : List Char) : Cursor text := point 0 (Nat.zero_le _)

/-- The characters between the two places. -/
def held (c : Cursor text) : List Char := (text.take c.stop).drop c.start

/-- The characters behind both places. -/
def ahead (c : Cursor text) : List Char := text.drop c.stop

/-- Moves the second place over some characters. -/
def grow (c : Cursor text) (count : Nat) (h : count ≤ c.ahead.length) : Cursor text where
  start := c.start
  stop := c.stop + count
  ordered := Nat.le_add_right_of_le c.ordered
  inside := by
    have := c.inside
    rw [ahead, List.length_drop] at h
    omega

/-- The cursors with the same first place. -/
def places (c : Cursor text) : List (Cursor text) :=
  (List.finRange (text.length + 1 - c.start)).map fun (i : Fin (text.length + 1 - c.start)) =>
    { start := c.start, stop := c.start + i }

/-- The cursor with the same first place whose second one has an offset. -/
def seek? (c : Cursor text) (position : Int) : Option (Cursor text) :=
  c.places.find? fun c' => (offset text c'.stop : Int) = position

/-- Takes the next character if there is one and it passes a test. -/
def takeIf (test : Char → Bool) (c : Cursor text) : Answer × Cursor text :=
  match h : c.ahead with
  | [] => (.ok (some false), c)
  | ch :: _ => if test ch then (.ok (some true), c.grow 1 (by simp [h])) else (.ok (some false), c)

/-- Takes the longest run of characters that pass a test. -/
def scanWhile (test : Char → Bool) (c : Cursor text) : Answer × Cursor text :=
  let run := c.ahead.takeWhile test
  (.ok (some (decide (run ≠ []))), c.grow run.length (List.takeWhile_prefix test).length_le)

/-- Why a position is none to go back to. -/
def refusal (c : Cursor text) (position : Int) : Fault :=
  let low := offset text c.start
  let high := offset text text.length
  if position < low ∨ high < position then .outside position low high
  else .insideCharacter position

/-- Goes to the place that has an offset, if it does not lie before the first one. -/
def backtrack (position : Int) (c : Cursor text) : Answer × Cursor text :=
  match c.seek? position with
  | some c' => (.ok none, c')
  | none => (.error (c.refusal position), c)

/-- What an operation does to a cursor. -/
def perform (c : Cursor text) : Operation → Answer × Cursor text
  | .take => c.takeIf fun _ => true
  | .takeIf test => c.takeIf test
  | .peek test => (.ok (some (c.ahead.head?.any test)), c)
  | .scanWhile test => c.scanWhile test
  | .scanUntil test => c.scanWhile fun ch => !test ch
  | .backtrack position => c.backtrack position
  | .advance => (.ok none, point c.stop c.inside)

/-! ## Places of a cursor -/

/-- The text is what stands before, between and behind the two places. -/
theorem append_held_ahead (c : Cursor text) : text.take c.start ++ (c.held ++ c.ahead) = text := by
  have hbefore : text.take c.start = (text.take c.stop).take c.start := by
    rw [List.take_take, Nat.min_eq_left c.ordered]
  rw [← List.append_assoc, held, hbefore, List.take_append_drop, ahead, List.take_append_drop]

/-- What stands between and behind the two places is what stands behind the first one. -/
theorem held_append_ahead (c : Cursor text) : c.held ++ c.ahead = text.drop c.start := by
  have htext := c.append_held_ahead.trans (List.take_append_drop c.start text).symm
  exact List.append_cancel_left htext

/-- What lies between the places is as long as their offsets say. -/
theorem offset_stop (c : Cursor text) :
    offset text c.stop = offset text c.start + (encode c.held).length := by
  have hheld : c.held = (text.drop c.start).take (c.stop - c.start) := by
    rw [held, List.drop_take]
  rw [hheld, ← offset_add, Nat.add_sub_cancel' c.ordered]

theorem held_grow (c : Cursor text) {count : Nat} (h : count ≤ c.ahead.length) :
    (c.grow count h).held = c.held ++ c.ahead.take count := by
  show (text.take (c.stop + count)).drop c.start = _
  have hlength : c.start ≤ (text.take c.stop).length := by
    rw [List.length_take_of_le c.inside]
    exact c.ordered
  rw [List.take_add, List.drop_append_of_le_length hlength]
  rfl

theorem ahead_grow (c : Cursor text) {count : Nat} (h : count ≤ c.ahead.length) :
    (c.grow count h).ahead = c.ahead.drop count := by
  rw [ahead, ahead, List.drop_drop]
  rfl

theorem takeIf_nil {test : Char → Bool} {c : Cursor text} (h : c.ahead = []) :
    c.takeIf test = (.ok (some false), c) := by
  unfold takeIf
  split
  next => rfl
  next hc => exact absurd (h.symm.trans hc) (List.cons_ne_nil _ _).symm

theorem takeIf_cons {test : Char → Bool} {c : Cursor text} {ch : Char} {rest : List Char}
    (h : c.ahead = ch :: rest) (hle : 1 ≤ c.ahead.length) :
    c.takeIf test = if test ch then (.ok (some true), c.grow 1 hle)
      else (.ok (some false), c) := by
  unfold takeIf
  split
  next hc => exact absurd (hc.symm.trans h) (List.cons_ne_nil _ _).symm
  next d after hc =>
    obtain ⟨rfl, -⟩ := List.cons.inj (hc.symm.trans h)
    rfl

theorem mem_places {c c' : Cursor text} : c' ∈ c.places ↔ c'.start = c.start := by
  constructor
  · intro h
    obtain ⟨i, -, rfl⟩ := List.mem_map.1 h
    rfl
  · intro h
    have hordered := c'.ordered
    have hinside := c'.inside
    refine List.mem_map.2 ⟨⟨c'.stop - c.start, by omega⟩, List.mem_finRange _, ?_⟩
    ext
    · exact h.symm
    · show c.start + (c'.stop - c.start) = c'.stop
      omega

/-- The cursor that is sought is the only one with its offset. -/
theorem seek?_eq_some_iff {c c' : Cursor text} {position : Int} :
    c.seek? position = some c' ↔ c'.start = c.start ∧ (offset text c'.stop : Int) = position := by
  constructor
  · intro h
    refine ⟨mem_places.1 (List.mem_of_find?_eq_some h), ?_⟩
    simpa using List.find?_some h
  · rintro ⟨hstart, hstop⟩
    cases hseek : c.seek? position with
    | none =>
      have := List.find?_eq_none.1 hseek c' (mem_places.2 hstart)
      simp [hstop] at this
    | some found =>
      have hfound : found.start = c.start := mem_places.1 (List.mem_of_find?_eq_some hseek)
      have hoffset : (offset text found.stop : Int) = position := by
        simpa using List.find?_some hseek
      have hsame : found.stop = c'.stop := offset_inj found.inside c'.inside (by omega)
      rw [Cursor.ext (hfound.trans hstart.symm) hsame]

theorem seek?_eq_none_iff {c : Cursor text} {position : Int} :
    c.seek? position = none ↔
      ∀ place, c.start ≤ place → place ≤ text.length → (offset text place : Int) ≠ position := by
  constructor
  · intro h place hstart hplace
    have := List.find?_eq_none.1 h ⟨c.start, place, hstart, hplace⟩ (mem_places.2 rfl)
    simpa using this
  · intro h
    refine List.find?_eq_none.2 fun c' hc' => ?_
    rw [mem_places] at hc'
    have := h c'.stop (by rw [← hc']; exact c'.ordered) c'.inside
    simpa using this

end Cursor

/-! ## A window at the places of a cursor -/

variable {text : List Char} {bad : Bytes} {w w' : Window} {c c' : Cursor text}

/--
A window stands at the places of a cursor over some characters, which are encoded at the front of
its text and have some bytes behind them.
-/
structure StandsAt (w : Window) (c : Cursor text) (bad : Bytes) : Prop where
  source_eq : w.source = encode text ++ bad
  start_eq : w.start = offset text c.start
  stop_eq : w.stop = offset text c.stop
  last_eq : w.last = none ∨ w.last = c.held.getLast?

/-- A window over the encoded text stands at the places of a cursor, and shows what lies there. -/
structure Shows (w : Window) (c : Cursor text) : Prop where
  source_eq : w.source = encode text
  start_eq : w.start = offset text c.start
  stop_eq : w.stop = offset text c.stop
  atEnd_iff : w.atEnd = true ↔ c.stop = text.length
  text?_eq : w.text? = some c.held
  last_eq : w.last = none ∨ w.last = c.held.getLast?

/-- What stands before, inside and behind a window is that of the cursor, encoded. -/
theorem StandsAt.view (h : w.StandsAt c bad) :
    w.View (encode (text.take c.start)) c.held (encode c.ahead ++ bad) where
  source_eq :=
    calc w.source = encode (text.take c.start ++ (c.held ++ c.ahead)) ++ bad := by
          rw [c.append_held_ahead, h.source_eq]
      _ = _ := by simp only [encode_append, List.append_assoc]
  start_eq := h.start_eq
  stop_eq := h.stop_eq.trans c.offset_stop

/-- A window that holds what lies between the places of a cursor stands at them. -/
theorem standsAt_of_view (h : w.View (encode (text.take c.start)) c.held (encode c.ahead ++ bad))
    (hlast : w.last = none ∨ w.last = c.held.getLast?) : w.StandsAt c bad where
  source_eq :=
    calc w.source = encode (text.take c.start ++ (c.held ++ c.ahead)) ++ bad := by
          rw [h.source_eq]
          simp only [encode_append, List.append_assoc]
      _ = encode text ++ bad := by rw [c.append_held_ahead]
  start_eq := h.start_eq
  stop_eq := h.stop_eq.trans c.offset_stop.symm
  last_eq := hlast

/-- A window stands at the end of the characters just if its cursor has none ahead. -/
theorem StandsAt.stop_eq_iff (h : w.StandsAt c bad) :
    w.stop = (encode text).length ↔ c.ahead = [] := by
  rw [h.stop_eq, ← offset_length, Cursor.ahead, List.drop_eq_nil_iff]
  constructor
  · intro heq
    exact Nat.le_of_eq (offset_inj c.inside (Nat.le_refl _) heq).symm
  · intro hle
    rw [Nat.le_antisymm c.inside hle]

/-- A window over the encoded text alone shows what lies at its places. -/
theorem StandsAt.shows (h : w.StandsAt c []) : w.Shows c where
  source_eq := by rw [h.source_eq, List.append_nil]
  start_eq := h.start_eq
  stop_eq := h.stop_eq
  atEnd_iff := by
    rw [atEnd_iff, h.source_eq, List.append_nil, h.stop_eq, ← offset_length]
    exact ⟨offset_inj c.inside (Nat.le_refl _), fun h => by rw [h]⟩
  text?_eq := h.view.text?_eq
  last_eq := h.last_eq

theorem Shows.standsAt (h : w.Shows c) : w.StandsAt c [] where
  source_eq := by rw [h.source_eq, List.append_nil]
  start_eq := h.start_eq
  stop_eq := h.stop_eq
  last_eq := h.last_eq

/-- At the beginning a window shows the cursor with both places there. -/
theorem shows_ofBytes (text : List Char) : (ofBytes (encode text)).Shows (.origin text) :=
  StandsAt.shows ⟨(List.append_nil _).symm, rfl, rfl, Or.inl rfl⟩

/-- What an operation does to a window agrees with what it does to a cursor. -/
def Agrees {α : Type} (x : α × Window) (y : α × Cursor text) : Prop := x.1 = y.1 ∧ x.2.Shows y.2

/--
What an operation does to a window is what it does to a cursor, but that it may fail at malformed
bytes behind the characters.
-/
structure Follows (x : Answer × Window) (y : Answer × Cursor text) (bad : Bytes) : Prop where
  answer : x.1 = y.1 ∨ (∃ m, frontFault? bad = some m) ∧ ∃ f, x.1 = .error f
  standsAt : x.2.StandsAt y.2 bad

/-- With nothing behind the characters nothing fails. -/
theorem Follows.agrees {x : Answer × Window} {y : Answer × Cursor text} (h : Follows x y []) :
    Agrees x y := by
  refine ⟨h.answer.resolve_right ?_, h.standsAt.shows⟩
  rintro ⟨⟨m, hm⟩, -⟩
  cases hm

/-! ## Taking -/

/-- A window finds the character behind the cursor, or none. -/
theorem StandsAt.ahead_cases (h : w.StandsAt c bad) (hbad : Unreadable bad) :
    (c.ahead = [] ∧ w.ahead = .nothing) ∨
      (c.ahead = [] ∧ ∃ m, frontFault? bad = some m ∧ w.ahead = .malformed m) ∨
      ∃ ch rest fits, c.ahead = ch :: rest ∧
        w.ahead = .character ch (encodeCode ch.toNat).length fits := by
  have hview := h.view
  cases hc : c.ahead with
  | nil =>
    rw [hc, encode_nil, List.nil_append] at hview
    have hrest := hview.rest_eq
    rcases w.ahead_cases with ⟨hahead, -⟩ | ⟨m, hahead, hm⟩ | ⟨ch, rest, fits, -, hch⟩
    · exact Or.inl ⟨rfl, hahead⟩
    · exact Or.inr (Or.inl ⟨rfl, m, hrest ▸ hm, hahead⟩)
    · -- no character stands behind the last one
      rw [← hrest, hch] at hbad
      exact absurd hbad (not_unreadable_encodeCode ch rest)
  | cons ch rest =>
    rw [hc, encode_cons, List.append_assoc] at hview
    obtain ⟨fits, hahead⟩ := hview.ahead_character
    exact Or.inr (Or.inr ⟨ch, rest, fits, rfl, hahead⟩)

/-- Taking a character moves the second place over it. -/
theorem StandsAt.push (h : w.StandsAt c bad) {ch : Char} {rest : List Char}
    (hahead : c.ahead = ch :: rest) (fits : w.stop + (encodeCode ch.toNat).length ≤ w.source.length)
    (hle : 1 ≤ c.ahead.length) :
    (w.push ch (encodeCode ch.toNat).length fits).StandsAt (c.grow 1 hle) bad := by
  have hview := h.view
  rw [hahead, encode_cons, List.append_assoc] at hview
  have hheld : (c.grow 1 hle).held = c.held ++ [ch] := by
    rw [c.held_grow, hahead]
    rfl
  refine standsAt_of_view ?_ (Or.inr ?_)
  · rw [hheld, c.ahead_grow, hahead]
    exact hview.push fits
  · rw [hheld, List.getLast?_concat]
    rfl

theorem StandsAt.take (h : w.StandsAt c bad) (hbad : Unreadable bad) :
    Follows (perform w .take) (c.perform .take) bad := by
  show Follows (outcome _ (Window.take w)) (c.takeIf fun _ => true) bad
  unfold Window.take
  rcases h.ahead_cases hbad with
    ⟨hc, hahead⟩ | ⟨hc, m, hm, hahead⟩ | ⟨ch, rest, fits, hc, hahead⟩
  · rw [hahead, Cursor.takeIf_nil hc]
    exact ⟨Or.inl rfl, h.source_eq, h.start_eq, h.stop_eq, Or.inl rfl⟩
  · rw [hahead, Cursor.takeIf_nil hc]
    exact ⟨Or.inr ⟨⟨m, hm⟩, _, rfl⟩, h⟩
  · have hle : 1 ≤ c.ahead.length := by simp [hc]
    rw [hahead, Cursor.takeIf_cons hc hle, if_pos rfl]
    exact ⟨Or.inl rfl, h.push hc fits hle⟩

theorem StandsAt.takeIf (h : w.StandsAt c bad) (hbad : Unreadable bad) (test : Char → Bool) :
    Follows (perform w (.takeIf test)) (c.perform (.takeIf test)) bad := by
  show Follows (outcome some (Window.takeIf test w)) (c.takeIf test) bad
  unfold Window.takeIf
  rcases h.ahead_cases hbad with
    ⟨hc, hahead⟩ | ⟨hc, m, hm, hahead⟩ | ⟨ch, rest, fits, hc, hahead⟩
  · rw [hahead, Cursor.takeIf_nil hc]
    exact ⟨Or.inl rfl, h⟩
  · rw [hahead, Cursor.takeIf_nil hc]
    exact ⟨Or.inr ⟨⟨m, hm⟩, _, rfl⟩, h⟩
  · have hle : 1 ≤ c.ahead.length := by simp [hc]
    rw [hahead, Cursor.takeIf_cons hc hle]
    dsimp only
    by_cases htest : test ch = true
    · rw [if_pos htest, if_pos htest]
      exact ⟨Or.inl rfl, h.push hc fits hle⟩
    · rw [if_neg htest, if_neg htest]
      exact ⟨Or.inl rfl, h⟩

theorem StandsAt.peek (h : w.StandsAt c bad) (hbad : Unreadable bad) (test : Char → Bool) :
    Follows (perform w (.peek test)) (c.perform (.peek test)) bad := by
  refine ⟨Or.inl ?_, h⟩
  rw [perform, Cursor.perform, Window.peek]
  rcases h.ahead_cases hbad with
    ⟨hc, hahead⟩ | ⟨hc, m, -, hahead⟩ | ⟨ch, rest, fits, hc, hahead⟩
  · rw [hahead, hc]
    rfl
  · rw [hahead, hc]
    rfl
  · rw [hahead, hc]
    rfl

/-! ## Scanning and committing -/

/-- The last character after a scan is that of the run, if the run has one. -/
theorem last_scanWhile (w : Window) (test : Char → Bool) :
    (outcome some (Window.scanWhile test w)).2.last
      = (runOf test w.rest).chars.getLast?.or w.last := by
  rw [scanWhile_eq]
  unfold takeRun
  dsimp only
  cases hfault : (runOf test w.rest).fault with
  | none => rfl
  | some m => rfl

/-- A scan moves the second place over a run, also where it fails behind it. -/
theorem StandsAt.scanWhile (h : w.StandsAt c bad) (hbad : Unreadable bad) (test : Char → Bool) :
    Follows (perform w (.scanWhile test)) (c.perform (.scanWhile test)) bad := by
  show Follows (outcome some (Window.scanWhile test w)) (c.scanWhile test) bad
  let run := c.ahead.takeWhile test
  let rest := c.ahead.dropWhile test
  have hahead : c.ahead = run ++ rest := List.takeWhile_append_dropWhile.symm
  have hrun : ∀ ch ∈ run, test ch = true := List.all_eq_true.1 List.all_takeWhile
  have hrest : Stops test (encode rest ++ bad) := hbad.stops_dropWhile test c.ahead
  have hview := h.view
  rw [hahead, encode_append, List.append_assoc] at hview
  have hlast := last_scanWhile w test
  rw [hview.rest_eq, runOf_encode hrun hrest] at hlast
  obtain ⟨w', hw', hscan⟩ := hview.scanWhile hrun hrest
  have hafter : (outcome some (Window.scanWhile test w)).2 = w' := by
    rw [hscan]
    cases frontFault? (encode rest ++ bad) with
    | none => rfl
    | some m => rfl
  have hle : run.length ≤ c.ahead.length := (List.takeWhile_prefix test).length_le
  have hheld : (c.grow run.length hle).held = c.held ++ run := by
    rw [c.held_grow, hahead, List.take_left]
  constructor
  · rw [hscan]
    -- a scan fails only if all characters are taken
    cases hfault : frontFault? (encode rest ++ bad) with
    | none => exact Or.inl rfl
    | some m => exact Or.inr ⟨⟨m, (frontFault?_encode_append_iff.1 hfault).2⟩, _, rfl⟩
  · rw [hafter] at hlast ⊢
    show w'.StandsAt (c.grow run.length hle) bad
    refine standsAt_of_view ?_ ?_
    · rw [hheld, c.ahead_grow, hahead, List.drop_left]
      exact hw'
    · rw [hheld, List.getLast?_append, hlast]
      -- an empty run leaves the last character that was known, and there may be none
      rcases h.last_eq with hnone | hheld
      · rw [hnone]
        cases run.getLast? with
        | none => exact Or.inl rfl
        | some ch => exact Or.inr rfl
      · rw [hheld]
        exact Or.inr rfl

theorem StandsAt.advance (h : w.StandsAt c bad) :
    Follows (perform w .advance) (c.perform .advance) bad :=
  ⟨Or.inl rfl, h.source_eq, h.stop_eq, h.stop_eq, Or.inl rfl⟩

/-- **An operation that goes forward does to a window what it does to the cursor.** -/
theorem StandsAt.perform (h : w.StandsAt c bad) (hbad : Unreadable bad) {op : Operation}
    (hop : op.isForward = true) : Follows (perform w op) (c.perform op) bad := by
  cases op with
  | take => exact h.take hbad
  | takeIf test => exact h.takeIf hbad test
  | peek test => exact h.peek hbad test
  | scanWhile test => exact h.scanWhile hbad test
  | scanUntil test => exact h.scanWhile hbad fun ch => !test ch
  | advance => exact h.advance
  | backtrack position => cases hop

/-! ## Going back -/

/-- Going back from inside a character leads to where it begins. -/
theorem characterStart_encodeCode (c : Char) {pre post : Bytes} {low i : Nat}
    (hlow : low ≤ pre.length) (hi : i < (encodeCode c.toNat).length) :
    characterStart (pre ++ (encodeCode c.toNat ++ post)) low (pre.length + i) = pre.length := by
  induction i with
  | zero =>
    have hlead := isBoundary_lead c pre post
    rw [Nat.add_zero]
    cases hn : pre.length with
    | zero => rfl
    | succ n =>
      rw [hn] at hlead
      rw [characterStart, hlead]
      exact if_neg fun h => Bool.false_ne_true h.2
  | succ i ih =>
    have hinside : isBoundary (pre ++ (encodeCode c.toNat ++ post)) (pre.length + i + 1 : Nat)
        = false :=
      isBoundary_inside c pre post (Nat.succ_pos i) hi
    rw [← Nat.add_assoc, characterStart, hinside, if_pos ⟨by omega, rfl⟩]
    exact ih (Nat.lt_of_succ_lt hi)

/-- The last character of a window is the last one that it holds. -/
theorem View.lastCharacter_eq {behind ahead : Bytes} {held : List Char}
    (h : w.View behind held ahead) : w.lastCharacter = .ok held.getLast? := by
  have hstop := h.stop_eq
  have hsource := h.source_eq
  unfold lastCharacter
  rw [h.start_eq]
  rcases List.eq_nil_or_concat held with rfl | ⟨before, c, rfl⟩
  · rw [encode_nil, List.length_nil, Nat.add_zero] at hstop
    rw [if_pos hstop]
    rfl
  · have hpos := length_encodeCode_pos c
    rw [List.concat_eq_append, encode_append, encode_cons, encode_nil, List.append_nil]
      at hstop hsource
    rw [List.append_assoc, ← List.append_assoc] at hsource
    have hle : behind.length ≤ (behind ++ encode before).length := by
      rw [List.length_append]
      exact Nat.le_add_right _ _
    have hlast : w.stop - 1
        = (behind ++ encode before).length + ((encodeCode c.toNat).length - 1) := by
      rw [hstop, List.length_append, List.length_append]
      omega
    have hne : w.stop ≠ behind.length := by
      rw [hstop, List.length_append]
      omega
    rw [if_neg hne, hlast, hsource, characterStart_encodeCode c hle (by omega)]
    obtain ⟨lead, tail, he, hdecode⟩ := encodeCode_append c ahead
    dsimp only
    rw [List.drop_left, he]
    dsimp only
    rw [hdecode, List.concat_eq_append, List.getLast?_concat]

/--
A window that could hold other characters of its text goes to where they end, if a boundary is
there.
-/
theorem View.backtrack {behind ahead ahead' : Bytes} {held held' : List Char}
    (h : w.View behind held ahead) (hsplit : encode held ++ ahead = encode held' ++ ahead')
    (hboundary : isBoundary w.source (behind.length + (encode held').length : Nat) = true) :
    ∃ w', w'.View behind held' ahead' ∧
      (w'.last = w.last ∧ held' = held ∨ w'.last = held'.getLast?) ∧
      Window.backtrack (behind.length + (encode held').length : Nat) w = .ok () w' := by
  have hsource : w.source = behind ++ (encode held' ++ ahead') := by rw [h.source_eq, hsplit]
  have hstart := h.start_eq
  rcases w.backtrack_cases (behind.length + (encode held').length : Nat) with
    ⟨f, -, -, hrefused⟩ | ⟨-, ⟨hstop, hback⟩ | ⟨-, moved, hsame, hlow, hstop, -, hback⟩⟩
  · exact absurd ⟨by omega, hboundary⟩ hrefused
  · -- the window ends there already, and keeps its last character
    have hview : w.View behind held' ahead' := ⟨hsource, hstart, by omega⟩
    have hheld : held' = held := encode_injective (hview.bytes_eq.symm.trans h.bytes_eq)
    exact ⟨w, hview, Or.inl ⟨rfl, hheld⟩, hback⟩
  · have hview : moved.View behind held' ahead' :=
      ⟨hsame.trans hsource, hlow.trans hstart, by omega⟩
    rw [hview.lastCharacter_eq] at hback
    exact ⟨{ moved with last := held'.getLast? },
      ⟨hview.source_eq, hview.start_eq, hview.stop_eq⟩, Or.inr rfl, hback⟩

/-- A window goes to a place of the cursor, if a boundary is there. -/
theorem StandsAt.backtrack_place (h : w.StandsAt c bad) (hstart : c'.start = c.start)
    (hboundary : isBoundary w.source (offset text c'.stop) = true) :
    ∃ w', w'.StandsAt c' bad ∧ Window.backtrack (offset text c'.stop) w = .ok () w' := by
  have hplace : offset text c'.stop
      = (encode (text.take c.start)).length + (encode c'.held).length := by
    rw [← hstart]
    exact c'.offset_stop
  have hsplit : encode c.held ++ (encode c.ahead ++ bad)
      = encode c'.held ++ (encode c'.ahead ++ bad) := by
    rw [← List.append_assoc, ← encode_append, ← List.append_assoc, ← encode_append,
      c.held_append_ahead, c'.held_append_ahead, hstart]
  rw [hplace] at hboundary ⊢
  obtain ⟨w', hview, hlast, hback⟩ := h.view.backtrack hsplit hboundary
  refine ⟨w', standsAt_of_view (by rwa [hstart]) ?_, hback⟩
  rcases hlast with ⟨hlast, hheld⟩ | hlast
  · rw [hlast, hheld]
    exact h.last_eq
  · exact Or.inr hlast

/-- A window refuses a position that is no place of the cursor. -/
theorem Shows.backtrack_refusal (h : w.Shows c) {position : Int}
    (hnone : c.seek? position = none) :
    Window.backtrack position w = .error (c.refusal position) w := by
  have hlength : w.source.length = offset text text.length := by
    rw [h.source_eq, offset_length]
  unfold Window.backtrack Cursor.refusal
  dsimp only
  rw [← h.start_eq, ← hlength]
  by_cases houtside : position < w.start ∨ w.source.length < position
  · rw [dif_pos houtside, if_pos houtside]
  · have hboundary : isBoundary w.source position = false := by
      rw [← Bool.not_eq_true, h.source_eq, isBoundary_encode_iff]
      rintro ⟨place, hplace, rfl⟩
      -- a place before the first one would lie outside
      have hstart : c.start ≤ place := by
        refine Nat.le_of_not_lt fun hlt => houtside (Or.inl ?_)
        have := offset_lt_offset hlt (Nat.le_trans c.ordered c.inside)
        rw [h.start_eq]
        omega
      exact Cursor.seek?_eq_none_iff.1 hnone place hstart hplace rfl
    rw [dif_neg houtside, if_neg houtside, if_pos (by rw [hboundary]; rfl)]

theorem agrees_backtrack (h : w.Shows c) (position : Int) :
    Agrees (outcome (fun _ => none) (Window.backtrack position w)) (c.backtrack position) := by
  unfold Cursor.backtrack
  cases hseek : c.seek? position with
  | none =>
    rw [h.backtrack_refusal hseek]
    exact ⟨rfl, h⟩
  | some c' =>
    obtain ⟨hstart, rfl⟩ := Cursor.seek?_eq_some_iff.1 hseek
    have hboundary : isBoundary w.source (offset text c'.stop) = true := by
      rw [h.source_eq, isBoundary_encode_iff]
      exact ⟨c'.stop, c'.inside, rfl⟩
    obtain ⟨w', hw', hback⟩ := h.standsAt.backtrack_place hstart hboundary
    rw [hback]
    exact ⟨rfl, hw'.shows⟩

/-! ## Runs of operations -/

/-- **Every operation does to a window what it does to the cursor.** -/
theorem agrees_perform (h : w.Shows c) (op : Operation) : Agrees (perform w op) (c.perform op) := by
  have hnil : Unreadable [] := fun _ => rfl
  cases op with
  | backtrack position => exact agrees_backtrack h position
  | _ => exact (h.standsAt.perform hnil rfl).agrees

theorem agrees_trace (h : w.Shows c) (ops : List Operation) :
    Agrees (trace perform w ops) (trace Cursor.perform c ops) := by
  induction ops generalizing w c with
  | nil => exact ⟨rfl, h⟩
  | cons op ops ih =>
    obtain ⟨hanswer, hshows⟩ := agrees_perform h op
    obtain ⟨hanswers, hfinal⟩ := ih hshows
    exact ⟨List.cons_eq_cons.2 ⟨hanswer, hanswers⟩, hfinal⟩

/-- Only going back is refused. -/
theorem Cursor.eq_backtrack_of_error {op : Operation} {f : Fault}
    (h : (c.perform op).1 = .error f) :
    ∃ position, op = .backtrack position ∧ c.seek? position = none := by
  have htakeIf (test : Char → Bool) : (c.takeIf test).1 ≠ .error f := by
    unfold Cursor.takeIf
    split
    · nofun
    · split <;> nofun
  cases op with
  | take => exact absurd h (htakeIf _)
  | takeIf test => exact absurd h (htakeIf test)
  | backtrack position =>
    refine ⟨position, rfl, ?_⟩
    cases hseek : c.seek? position with
    | none => rfl
    | some c' =>
      rw [Cursor.perform, Cursor.backtrack, hseek] at h
      cases h
  | _ => cases h

/-- A window that refuses a position stays as it is. -/
theorem Shows.perform_eq_of_error (h : w.Shows c) {op : Operation} {f : Fault}
    (hf : (perform w op).1 = .error f) : (perform w op).2 = w := by
  rw [(agrees_perform h op).1] at hf
  obtain ⟨position, rfl, hseek⟩ := Cursor.eq_backtrack_of_error hf
  rw [perform, h.backtrack_refusal hseek]
  rfl

/--
**A window over an encoded text is a cursor over its characters.** After any operations it has given
the answers of the cursor, faults of going back to a position included and no others, and it shows
what lies at the places of the cursor. What only looks, and what is refused, changes nothing.
-/
theorem trace_cursor (text : List Char) (ops : List Operation) :
    let before := trace perform (ofBytes (encode text)) ops
    Agrees before (trace Cursor.perform (.origin text) ops) ∧
      ∀ op, (∃ test, op = .peek test) ∨ (∃ f, (perform before.2 op).1 = .error f) →
        (perform before.2 op).2 = before.2 := by
  intro before
  have hagrees : Agrees before (trace Cursor.perform (.origin text) ops) :=
    agrees_trace (shows_ofBytes text) ops
  refine ⟨hagrees, ?_⟩
  rintro op (⟨test, rfl⟩ | ⟨f, hf⟩)
  · rfl
  · exact hagrees.2.perform_eq_of_error hf

/-- The window has taken a character of two bytes and is asked to go back to its middle. -/
theorem trace_cursor_middle :
    let w := (trace perform (ofBytes (encode ['é', 'a'])) [.take]).2
    (perform w (.backtrack 1)).1 = .error (.insideCharacter 1) ∧
      (perform w (.backtrack 1)).2 = w ∧ w.stop = 2 := by
  intro w
  have hf : (perform w (.backtrack 1)).1 = .error (.insideCharacter 1) := rfl
  exact ⟨hf, (trace_cursor ['é', 'a'] [.take]).2 _ (Or.inr ⟨_, hf⟩), rfl⟩

end Arith.Window
