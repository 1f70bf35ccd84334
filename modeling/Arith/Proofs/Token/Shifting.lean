import Arith.ErrorKind
import Arith.Proofs.Token.Reached
import Arith.Proofs.Window.Cursor
import Mathlib

/-!
# Streams in the middle of a text

A lexer does not see where in a text it stands: every step brings the same over a text with more
bytes in front of it, but for the places (`Shifted`, `Alike`, `alike_scanToken`). So a lexer can
take over a window that was moved by others. If the window holds nothing, all pulls bring what they
bring over the bytes behind the window alone, with all places shifted (`takesOver_of_committed`).
-/

namespace Arith

/-! ## The same further behind -/

namespace TokenError

variable (count : Nat) (e : TokenError)

@[simp] theorem kind_shift : (e.shift count).kind = e.kind := by
  cases e <;> rfl

@[simp] theorem message_shift : (e.shift count).message = e.message := by
  cases e <;> rfl

@[simp] theorem span_shift : (e.shift count).span = e.span.shift count := by
  cases e <;> rfl

@[simp] theorem cause?_shift : (e.shift count).cause? = e.cause?.map (TextError.shift count) := by
  cases e <;> rfl

end TokenError

/-- The same pull in a text that has `count` more bytes in front. -/
def Pull.shift (count : Nat) : Pull → Pull
  | token t => token (t.shift count)
  | finished => finished
  | error e => error (e.shift count)
  | fault f => fault f

/-- The same failure in a text that has `count` more bytes in front. -/
def Lexer.Failure.shift (count : Nat) : Failure → Failure
  | error e => error (e.shift count)
  | fault f => fault f

theorem Span.shift_ofLength (count start length : Nat) :
    (ofLength start length).shift count = ofLength (count + start) length := by
  simp only [shift, ofLength, Nat.add_assoc]

theorem TextError.shift_ofMalformed (count offset : Nat) (m : Malformed) :
    (ofMalformed offset m).shift count = ofMalformed (count + offset) m := by
  rw [shift, ofMalformed, ofMalformed, Span.shift_ofLength]

namespace Window

open Utf8

variable {count : Nat} {w v : Window}

/-- A window has `count` more bytes in front of it than another one, over the same text else. -/
structure Shifted (count : Nat) (w v : Window) : Prop where
  source_eq : w.source.drop count = v.source
  start_eq : w.start = count + v.start
  stop_eq : w.stop = count + v.stop

/-- Two windows with the same bytes ahead find the same there. -/
theorem ahead_cases_of_rest (h : w.rest = v.rest) :
    (w.ahead = .nothing ∧ v.ahead = .nothing) ∨
      (∃ m, w.ahead = .malformed m ∧ v.ahead = .malformed m) ∨
      ∃ c width fits fits',
        w.ahead = .character c width fits ∧ v.ahead = .character c width fits' := by
  rcases w.ahead_cases with ⟨hw, hrest⟩ | ⟨m, hw, hrest⟩ | ⟨c, rest, fits, hw, hrest⟩
  · rcases v.ahead_cases with ⟨hv, -⟩ | ⟨n, -, hn⟩ | ⟨d, rest', -, -, hd⟩
    · exact Or.inl ⟨hw, hv⟩
    · rw [← h, hrest] at hn
      cases hn
    · exact absurd (hd.symm.trans (h.symm.trans hrest)) (encodeCode_append_ne_nil d rest')
  · rcases v.ahead_cases with ⟨-, hnil⟩ | ⟨n, hv, hn⟩ | ⟨d, rest', -, -, hd⟩
    · rw [h, hnil] at hrest
      cases hrest
    · rw [h, hn] at hrest
      cases hrest
      exact Or.inr (Or.inl ⟨m, hw, hv⟩)
    · rw [h, hd, frontFault?_encodeCode] at hrest
      cases hrest
  · rcases v.ahead_cases with ⟨-, hnil⟩ | ⟨n, -, hn⟩ | ⟨d, rest', fits', hv, hd⟩
    · exact absurd (hrest.symm.trans (h.trans hnil)) (encodeCode_append_ne_nil c rest)
    · rw [← h, hrest, frontFault?_encodeCode] at hn
      cases hn
    · obtain ⟨rfl, -⟩ := encodeCode_append_inj (hrest.symm.trans (h.trans hd))
      exact Or.inr (Or.inr ⟨c, _, fits, fits', hw, hv⟩)

namespace Shifted

theorem rest_eq (h : Shifted count w v) : w.rest = v.rest := by
  rw [Window.rest, Window.rest, h.stop_eq, ← h.source_eq, List.drop_drop]

theorem bytes_eq (h : Shifted count w v) : w.bytes = v.bytes := by
  rw [bytes, bytes, h.stop_eq, h.start_eq, ← h.source_eq, List.take_drop, List.drop_drop]

theorem text?_eq (h : Shifted count w v) : w.text? = v.text? := by
  rw [text?, text?, h.bytes_eq]

theorem span_eq (h : Shifted count w v) : w.span = v.span.shift count := by
  simp only [span, Span.shift, h.start_eq, h.stop_eq]

theorem peek_eq (h : Shifted count w v) (test : Char → Bool) : w.peek test = v.peek test := by
  rw [peek, peek]
  rcases ahead_cases_of_rest h.rest_eq with ⟨hw, hv⟩ | ⟨m, hw, hv⟩ | ⟨c, width, fits, fits', hw, hv⟩
  all_goals rw [hw, hv]

/-- A window that holds nothing, and the bytes behind it alone. -/
theorem ofBytes (h : w.start = w.stop) : Shifted w.stop w (ofBytes (w.source.drop w.stop)) :=
  ⟨rfl, h, rfl⟩

end Shifted

end Window

namespace Lexer

open Utf8 Window

variable {count : Nat} {w v : Window} {α β : Type}

/-! ## Steps -/

/--
A step brings the same in a text with `count` more bytes in front: what it brings is related, or it
fails likewise, and the windows stay related.
-/
inductive Alike (count : Nat) (R : α → α → Prop) :
    EStateM.Result Failure Window α → EStateM.Result Failure Window α → Prop where
  | ok {a b : α} {w v : Window} (hab : R a b) (hw : Shifted count w v) :
      Alike count R (.ok a w) (.ok b v)
  | error (f : Failure) {w v : Window} (hw : Shifted count w v) :
      Alike count R (.error (f.shift count) w) (.error f v)

/-- Two steps are alike over all windows of which one is shifted. -/
def AlikeSteps (count : Nat) (R : α → α → Prop) (x y : Step α) : Prop :=
  ∀ w v : Window, Shifted count w v → Alike count R (x w) (y v)

variable {R : α → α → Prop} {S : β → β → Prop} {x y : Step α} {f g : α → Step β}

theorem Alike.bind (h : Alike count R (x w) (y v))
    (hfg : ∀ {a b}, R a b → AlikeSteps count S (f a) (g b)) :
    Alike count S ((x >>= f) w) ((y >>= g) v) := by
  generalize hx : x w = result at h
  generalize hy : y v = result' at h
  cases h with
  | ok hab hw =>
    rw [bind_of_ok hx, bind_of_ok hy]
    exact hfg hab _ _ hw
  | error e hw =>
    rw [bind_of_error hx, bind_of_error hy]
    exact Alike.error e hw

namespace AlikeSteps

theorem bind (h : AlikeSteps count R x y) (hfg : ∀ {a b}, R a b → AlikeSteps count S (f a) (g b)) :
    AlikeSteps count S (x >>= f) (y >>= g) :=
  fun w v hw => (h w v hw).bind hfg

theorem pure {a b : α} (h : R a b) : AlikeSteps count R (Pure.pure a) (Pure.pure b) :=
  fun _ _ hw => Alike.ok h hw

theorem throw (e : Failure) :
    AlikeSteps count R (MonadExcept.throw (e.shift count)) (MonadExcept.throw e) :=
  fun _ _ hw => Alike.error e hw

theorem get : AlikeSteps count (Shifted count) MonadState.get MonadState.get :=
  fun _ _ hw => Alike.ok hw hw

end AlikeSteps

/-- Malformed bytes fail at a place that is shifted. -/
theorem shift_malformedHere (h : Shifted count w v) (m : Malformed) :
    Failure.ofWindowFault (w.malformedHere m)
      = (Failure.ofWindowFault (v.malformedHere m)).shift count := by
  show Failure.error (.text (.ofMalformed w.stop m))
    = .error (.text (.shift count (.ofMalformed v.stop m)))
  rw [TextError.shift_ofMalformed, h.stop_eq]

theorem alike_take : AlikeSteps count Eq (lift take) (lift take) := by
  intro w v hw
  rw [lift_eq, lift_eq, take, take]
  rcases ahead_cases_of_rest hw.rest_eq with
    ⟨hahead, hahead'⟩ | ⟨m, hahead, hahead'⟩ | ⟨c, width, fits, fits', hahead, hahead'⟩
  · rw [hahead, hahead']
    exact Alike.ok rfl ⟨hw.source_eq, hw.start_eq, hw.stop_eq⟩
  · rw [hahead, hahead']
    dsimp only
    rw [shift_malformedHere hw]
    exact Alike.error _ hw
  · rw [hahead, hahead']
    refine Alike.ok rfl ⟨hw.source_eq, hw.start_eq, ?_⟩
    show w.stop + width = count + (v.stop + width)
    rw [hw.stop_eq, Nat.add_assoc]

theorem alike_advance : AlikeSteps count Eq (lift advance) (lift advance) := by
  intro w v hw
  rw [lift_eq, lift_eq]
  exact Alike.ok rfl ⟨hw.source_eq, hw.stop_eq, hw.stop_eq⟩

/-- A scan takes the same run, and finds the same malformed bytes behind it. -/
theorem alike_scanWhile (test : Char → Bool) :
    AlikeSteps count Eq (lift (scanWhile test)) (lift (scanWhile test)) := by
  intro w v hw
  obtain ⟨w', htake, hsource, hstart, hstop⟩ := takeRun_cases test w
  obtain ⟨v', htake', hsource', hstart', hstop'⟩ := takeRun_cases test v
  have hw' : Shifted count w' v' := by
    refine ⟨?_, ?_, ?_⟩
    · rw [hsource, hsource', hw.source_eq]
    · rw [hstart, hstart', hw.start_eq]
    · rw [hstop, hstop', hw.rest_eq, hw.stop_eq, Nat.add_assoc]
  rw [lift_eq, lift_eq, scanWhile_eq, scanWhile_eq, htake, htake', hw.rest_eq]
  cases (runOf test v.rest).fault with
  | none =>
    have hmoved : w.stop < w'.stop ↔ v.stop < v'.stop := by
      rw [hw.stop_eq, hw'.stop_eq]
      exact Nat.add_lt_add_iff_left
    exact Alike.ok (decide_eq_decide.2 hmoved) hw'
  | some m =>
    dsimp only
    rw [shift_malformedHere hw']
    exact Alike.error _ hw'

/-! ## Tokens -/

/-- White space is skipped alike. -/
theorem alike_skipBlanks : AlikeSteps count Eq skipBlanks skipBlanks :=
  (alike_scanWhile isBlank).bind fun hmoved => by
    subst hmoved
    split
    · exact alike_advance
    · exact AlikeSteps.pure rfl

/-- A token is the same one further behind. -/
def IsShift (count : Nat) (t u : Token) : Prop := t = u.shift count

theorem alike_emit (lexeme : Lexeme) :
    AlikeSteps count (IsShift count) (emit lexeme) (emit lexeme) :=
  .bind .get fun hw => .bind alike_advance fun _ => .pure (by rw [IsShift, hw.span_eq]; rfl)

theorem alike_heldText : AlikeSteps count Eq heldText heldText :=
  .bind .get fun {w v} hw => by
    rw [hw.text?_eq]
    cases v.text? with
    | none => exact .throw (.fault .malformedText)
    | some text => exact .pure rfl

theorem alike_number : AlikeSteps count (IsShift count) number number :=
  (alike_scanWhile isDigit).bind fun _ => alike_heldText.bind fun {text _} htext => by
    subst htext
    cases Numeral.read text with
    | error f => exact .throw (.fault (.numeral f))
    | ok n =>
      dsimp only
      by_cases hfits : int64Min ≤ n ∧ n ≤ int64Max
      · rw [if_pos hfits]
        exact alike_emit _
      · rw [if_neg hfits]
        refine .bind .get fun {w v} hw => ?_
        rw [hw.span_eq]
        exact .throw (.error (.outOfRange text v.span))

theorem alike_name : AlikeSteps count (IsShift count) name name :=
  (alike_scanWhile isNameChar).bind fun _ => alike_heldText.bind fun {text _} htext => by
    subst htext
    exact alike_emit _

theorem alike_tokenFrom (c : Char) :
    AlikeSteps count (IsShift count) (tokenFrom c) (tokenFrom c) :=
  .bind .get fun {w v} hw => by
    rw [hw.peek_eq]
    split
    · exact alike_number
    · split
      · exact alike_name
      · exact alike_emit _

/-- A step of the stream is alike if white space is skipped alike. -/
theorem alike_scanToken (h : Alike count Eq (skipBlanks w) (skipBlanks v)) :
    Alike count (Option.Rel (IsShift count)) (scanToken w) (scanToken v) :=
  h.bind fun _ => alike_take.bind fun {found _} hfound => by
    subst hfound
    cases found with
    | none => exact .pure .none
    | some c =>
      dsimp only
      rw [map_eq_pure_bind]
      exact (alike_tokenFrom c).bind fun ht => .pure (.some ht)

/-! ## Pulls -/

/-- A lexer stands further behind than another one, over the same text else. -/
structure Shifted (count : Nat) (l k : Lexer) : Prop where
  exhausted_eq : l.exhausted = k.exhausted
  window : l.window.Shifted count k.window

/-- Two pulls bring the same, and the lexers then stand so. -/
def AlikePulls (count : Nat) (p q : Pull × Lexer) : Prop :=
  p.1 = q.1.shift count ∧ Shifted count p.2 q.2

variable {l k : Lexer}

/-- Two lexers that go on bring the same if their steps are alike. -/
theorem alikePulls_next (hl : l.exhausted = false) (hk : k.exhausted = false)
    (h : Alike count (Option.Rel (IsShift count)) (scanToken l.window) (scanToken k.window)) :
    AlikePulls count l.next k.next := by
  rw [next_eq hl, next_eq hk]
  generalize scanToken l.window = result at h
  generalize scanToken k.window = result' at h
  cases h with
  | ok hfound hw =>
    cases hfound with
    | none => exact ⟨rfl, rfl, hw⟩
    | some ht =>
      subst ht
      exact ⟨rfl, rfl, hw⟩
  | error f hw =>
    cases f with
    | error e => exact ⟨rfl, rfl, hw⟩
    | fault f => exact ⟨rfl, rfl, hw⟩

/-- **A pull brings the same further behind.** -/
theorem Shifted.next (h : Shifted count l k) : AlikePulls count l.next k.next := by
  cases hk : k.exhausted with
  | true =>
    rw [next_of_exhausted (h.exhausted_eq.trans hk), next_of_exhausted hk]
    exact ⟨rfl, h⟩
  | false =>
    have hscan := alike_scanToken (alike_skipBlanks _ _ h.window)
    exact alikePulls_next (h.exhausted_eq.trans hk) hk hscan

/-- A stream after some pulls. -/
def later (l : Lexer) : Nat → Lexer
  | 0 => l
  | count + 1 => (later l count).next.2

theorem reached_eq_later (source : Bytes) (pulled : Nat) :
    reached source pulled = (ofBytes source).later pulled := by
  induction pulled with
  | zero => rfl
  | succ pulled ih => rw [reached, later, ih]

theorem Shifted.later (h : Shifted count l k) (pulled : Nat) :
    Shifted count (l.later pulled) (k.later pulled) := by
  induction pulled with
  | zero => exact h
  | succ pulled ih => exact ih.next.2

/-- All pulls bring the same if the first ones do. -/
theorem pulls_eq_of_next (h : AlikePulls count l.next k.next) :
    l.pulls = k.pulls.map (Pull.shift count) := by
  -- by induction on the pulls of the second stream, since both end after the same pull
  induction k using pulls.induct generalizing l with
  | case1 k hend =>
    have hl : l.next = (l.next.1, l.next.2) := rfl
    have hk : k.next = (k.next.1, k.next.2) := rfl
    rw [pulls_of_exhausted hk hend, pulls_of_exhausted hl (h.2.exhausted_eq.trans hend), h.1]
    rfl
  | case2 k hrunning ih =>
    have hl : l.next = (l.next.1, l.next.2) := rfl
    have hk : k.next = (k.next.1, k.next.2) := rfl
    rw [Bool.not_eq_true] at hrunning
    rw [pulls_of_running hk hrunning, pulls_of_running hl (h.2.exhausted_eq.trans hrunning), h.1,
      ih h.2.next]
    rfl

/-! ## Taking over a window -/

theorem source_later (l : Lexer) (pulled : Nat) :
    (l.later pulled).window.source = l.window.source := by
  induction pulled with
  | zero => rfl
  | succ pulled ih => exact (reaches_next _).source_eq.trans ih

/--
All pulls of a stream bring what the pulls of the text behind its window alone bring, with all
places shifted to the end of the window.
-/
def TakesOver (l : Lexer) : Prop :=
  ∀ pulled, AlikePulls l.window.stop (l.later pulled).next
    (reached (l.window.source.drop l.window.stop) pulled).next

/-- A stream goes on with a window that holds nothing. -/
structure Committed (l : Lexer) : Prop where
  running : l.exhausted = false
  start_eq_stop : l.window.start = l.window.stop

/-- A stream whose window holds nothing stands further behind than that of the text from there. -/
theorem Committed.shifted (h : l.Committed) :
    Shifted l.window.stop l (ofBytes (l.window.source.drop l.window.stop)) :=
  ⟨h.running, Window.Shifted.ofBytes h.start_eq_stop⟩

theorem Committed.takesOver (h : l.Committed) : l.TakesOver := by
  intro pulled
  rw [reached_eq_later]
  exact (h.shifted.later pulled).next

/-- Behind a token, the stream of a text goes on with a window that holds nothing. -/
theorem committed_of_token {source : Bytes} {pulled : Nat} {t : Token}
    (h : (reached source pulled).next.1 = .token t) : (reached source (pulled + 1)).Committed := by
  rw [reached]
  rcases reached_cases source pulled with hexhausted | ⟨behind, held, ahead, hstands, hheld⟩
  · rw [next_of_exhausted hexhausted] at h
    cases h
  · have houtcome := next_outcome hstands hheld
    generalize (reached source pulled).next = result at houtcome h
    cases houtcome with
    | token hl =>
      refine ⟨hl.running, ?_⟩
      rw [hl.view.start_eq, hl.view.stop_eq]
      rfl
    | _ => cases h

/--
**A stream can begin at any place of a text.** Over a window that holds nothing, whatever was done
with it before, all pulls bring what they bring over the bytes behind the window alone: the same
tokens, errors and faults, with all places shifted, and exhausted after the same pull. After every
token the window holds nothing, so the same is true of the rest of the stream.
-/
theorem takesOver_of_committed {w : Window} (h : w.start = w.stop) :
    let l : Lexer := ⟨w, false⟩
    l.TakesOver ∧ ∀ pulled t, (l.later pulled).next.1 = .token t →
      (l.later (pulled + 1)).window.source = w.source ∧ (l.later (pulled + 1)).Committed ∧
        (l.later (pulled + 1)).TakesOver := by
  intro l
  have hl : l.Committed := ⟨rfl, h⟩
  refine ⟨hl.takesOver, ?_⟩
  intro pulled t ht
  -- the stream of the text behind the window brings a token too, which commits its window
  have hshifted := hl.shifted.later
  obtain ⟨hpull, -⟩ := (hshifted pulled).next
  have hcommitted : (l.later (pulled + 1)).Committed := by
    rw [← reached_eq_later] at hpull
    rw [ht] at hpull
    cases hfresh : (reached (w.source.drop w.stop) pulled).next.1 with
    | token u =>
      have hnext := committed_of_token hfresh
      have hlater := hshifted (pulled + 1)
      rw [← reached_eq_later] at hlater
      refine ⟨hlater.exhausted_eq.trans hnext.running, ?_⟩
      rw [hlater.window.start_eq, hlater.window.stop_eq, hnext.start_eq_stop]
    | _ =>
      rw [hfresh] at hpull
      cases hpull
  exact ⟨source_later l _, hcommitted, hcommitted.takesOver⟩

/-- Behind "é" and a space that were taken and committed, a stream brings a number, and then fails
at a byte that begins no character. -/
theorem takesOver_of_committed_accent :
    let source : Bytes := encode ['é', ' ', '1', '2', ' '] ++ [0xFF]
    let w := (trace perform (Window.ofBytes source) [.take, .takeIf isBlank, .advance]).2
    let l : Lexer := ⟨w, false⟩
    w.start = w.stop ∧ w.stop = 3 ∧ l.next.1 = .token ⟨.ofLength 3 2, .number 12⟩ ∧
      (l.later 1).next.1 = .error (.text (.ofMalformed 6 (.badLead 0xFF))) ∧ l.TakesOver ∧
      (l.later 1).TakesOver := by
  intro source w l
  have hw : w.start = w.stop := rfl
  have htoken : l.next.1 = .token ⟨.ofLength 3 2, .number 12⟩ := by cbv
  have herror : (l.later 1).next.1 = .error (.text (.ofMalformed 6 (.badLead 0xFF))) := by cbv
  obtain ⟨htakes, hrest⟩ := takesOver_of_committed hw
  exact ⟨hw, rfl, htoken, herror, htakes, (hrest 0 _ htoken).2.2⟩

end Lexer

end Arith
