import Arith.Proofs.Text.Offset
import Arith.Window.Forward

/-!
# What stands before, inside and behind a window

A view splits the text of a window at its two ends: the bytes `behind` it, the characters that it
has `held`, and the bytes `ahead`. The operations on windows are read as operations on views:
taking a character moves it from `ahead` to `held`, a scan moves a longest run of characters, and
committing moves all that is held to `behind`.
-/

namespace Arith.Window

open Utf8

/-- The text before, inside and behind a window. -/
structure View (w : Window) (behind : Bytes) (held : List Char) (ahead : Bytes) : Prop where
  source_eq : w.source = behind ++ (encode held ++ ahead)
  start_eq : w.start = behind.length
  stop_eq : w.stop = behind.length + (encode held).length

namespace View

variable {w : Window} {behind ahead : Bytes} {held : List Char}

theorem ofBytes (source : Bytes) : (Window.ofBytes source).View [] [] source :=
  ⟨rfl, rfl, rfl⟩

/-! ## What is seen -/

theorem rest_eq (h : w.View behind held ahead) : w.rest = ahead := by
  rw [Window.rest, h.source_eq, h.stop_eq, ← List.length_append, ← List.append_assoc]
  exact List.drop_left

theorem bytes_eq (h : w.View behind held ahead) : w.bytes = encode held := by
  rw [Window.bytes, h.source_eq, h.stop_eq, h.start_eq, ← List.length_append, ← List.append_assoc,
    List.take_left, List.drop_left]

/-- The characters that a window holds can be read. -/
theorem text?_eq (h : w.View behind held ahead) : w.text? = some held := by
  rw [Window.text?, h.bytes_eq, decode?_encode]

theorem span_eq (h : w.View behind held ahead) :
    w.span = Span.ofLength behind.length (encode held).length := by
  simp only [Window.span, Span.ofLength, h.start_eq, h.stop_eq]

end View

/-- What is read behind a window, by what stands there. -/
theorem ahead_cases (w : Window) :
    (w.ahead = .nothing ∧ w.rest = []) ∨
      (∃ m, w.ahead = .malformed m ∧ frontFault? w.rest = some m) ∨
      ∃ c rest fits, w.ahead = .character c (encodeCode c.toNat).length fits ∧
        w.rest = encodeCode c.toNat ++ rest := by
  unfold ahead
  split
  next h => exact Or.inl ⟨rfl, h⟩
  next lead rest h =>
    right
    split
    next m hm => exact Or.inl ⟨m, rfl, by rw [h, frontFault?, hm]⟩
    next c width found =>
      obtain ⟨post, hpost, rfl⟩ := eq_encodeCode_of_decodeHead found
      have fits : w.stop + (encodeCode c.toNat).length ≤ w.source.length := by
        have hle := width_le_of_decodeHead found
        have hinside := w.inside
        rw [← h, length_rest] at hle
        omega
      exact Or.inr ⟨c, post, fits, rfl, by rw [h, hpost]⟩

/-- The run of characters at the front of a text is the longest one that passes the test. -/
theorem runOf_encode {test : Char → Bool} {run : List Char} (hrun : ∀ c ∈ run, test c = true)
    {rest : Bytes} (hrest : Stops test rest) :
    runOf test (encode run ++ rest) = ⟨run, (encode run).length, frontFault? rest⟩ := by
  induction run with
  | nil =>
    rw [encode_nil, List.nil_append]
    rcases front_cases rest with rfl | ⟨m, hm⟩ | ⟨c, post, rfl⟩
    · rw [runOf]; rfl
    · cases rest with
      | nil => cases hm
      | cons lead tail =>
        rw [frontFault?] at hm
        rw [runOf, frontFault?]
        cases hd : decodeHead lead tail with
        | ok found => rw [hd] at hm; cases hm
        | error m' => rfl
    · -- the run stops at a character that fails the test
      obtain ⟨lead, tail, he, hdecode⟩ := encodeCode_append c post
      rw [frontFault?_encodeCode, he, runOf, hdecode]
      show (if test c = true then _ else _) = _
      rw [if_neg (by rw [stops_encodeCode.1 hrest]; exact Bool.false_ne_true)]
      rfl
  | cons c run ih =>
    obtain ⟨hc, hrun⟩ := List.forall_mem_cons.1 hrun
    obtain ⟨lead, tail, he, hdecode⟩ := encodeCode_append c (encode run ++ rest)
    have hlength : (encodeCode c.toNat).length = tail.length + 1 := by
      have := congrArg List.length he
      simp only [List.length_append, List.length_cons] at this
      omega
    rw [encode_cons, List.append_assoc, he, runOf, hdecode]
    show (if test c = true then _ else _) = _
    rw [if_pos hc, Nat.add_sub_cancel, List.drop_left, ih hrun, List.length_append, hlength]

/-- Taking a run moves the end of the window, and fails if the run met malformed bytes. -/
theorem takeRun_cases (test : Char → Bool) (w : Window) :
    ∃ w' : Window,
      (takeRun test w = match (runOf test w.rest).fault with
        | some m => .error (w'.malformedHere m) w'
        | none => .ok () w') ∧
      w'.source = w.source ∧ w'.start = w.start ∧
      w'.stop = w.stop + (runOf test w.rest).width :=
  ⟨_, rfl, rfl, rfl, rfl⟩

/--
A position is refused, or the window ends there already, or its end moves there and the character
before is read.
-/
theorem backtrack_cases (w : Window) (position : Int) :
    (∃ f, backtrack position w = .error f w ∧ (∀ e, f ≠ .text e) ∧
      ¬ (w.start ≤ position ∧ isBoundary w.source position = true)) ∨
    (w.start ≤ position ∧ isBoundary w.source position = true) ∧
      (position = w.stop ∧ backtrack position w = .ok () w ∨
        position ≠ w.stop ∧ ∃ moved : Window,
          moved.source = w.source ∧ moved.start = w.start ∧ (moved.stop : Int) = position ∧
          moved.last = w.last ∧
          backtrack position w = match moved.lastCharacter with
            | .error e => .error (.text e) moved
            | .ok last => .ok () { moved with last }) := by
  unfold backtrack
  by_cases houtside : position < w.start ∨ w.source.length < position
  · rw [dif_pos houtside]
    refine Or.inl ⟨_, rfl, nofun, fun ⟨hstart, hboundary⟩ => ?_⟩
    have := range_of_isBoundary hboundary
    omega
  rw [dif_neg houtside]
  cases hboundary : isBoundary w.source position with
  | false => exact Or.inl ⟨_, rfl, nofun, fun h => Bool.false_ne_true h.2⟩
  | true =>
    refine Or.inr ⟨⟨by omega, rfl⟩, ?_⟩
    by_cases hstop : position = w.stop
    · exact Or.inl ⟨hstop, by rw [if_pos hstop]; rfl⟩
    · let moved : Window :=
        { w with stop := position.toNat, ordered := by omega, inside := by omega }
      have hmoved : (moved.stop : Int) = position := Int.toNat_of_nonneg (by omega)
      exact Or.inr ⟨hstop, moved, rfl, rfl, hmoved, rfl, by rw [if_neg hstop]; rfl⟩

namespace View

variable {w : Window} {behind ahead : Bytes} {held : List Char}

/-! ## Taking -/

/-- A character that stands ahead is found there. -/
theorem ahead_character {c : Char} (h : w.View behind held (encodeCode c.toNat ++ ahead)) :
    ∃ fits, w.ahead = .character c (encodeCode c.toNat).length fits := by
  have hrest := h.rest_eq
  rcases w.ahead_cases with ⟨-, hnil⟩ | ⟨m, -, hm⟩ | ⟨d, rest, fits, hahead, hd⟩
  · exact absurd (hrest.symm.trans hnil) (encodeCode_append_ne_nil c ahead)
  · rw [hrest, frontFault?_encodeCode] at hm
    cases hm
  · obtain ⟨rfl, -⟩ := encodeCode_append_inj (hrest.symm.trans hd)
    exact ⟨fits, hahead⟩

theorem ahead_nothing (h : w.View behind held []) : w.ahead = .nothing := by
  have hrest := h.rest_eq
  rcases w.ahead_cases with ⟨hahead, -⟩ | ⟨m, -, hm⟩ | ⟨c, rest, fits, -, hc⟩
  · exact hahead
  · rw [hrest] at hm
    cases hm
  · exact absurd (hc.symm.trans hrest) (encodeCode_append_ne_nil c rest)

/-- A character that is taken moves from what is ahead to what is held. -/
theorem push {c : Char} (h : w.View behind held (encodeCode c.toNat ++ ahead))
    (fits : w.stop + (encodeCode c.toNat).length ≤ w.source.length) :
    (w.push c (encodeCode c.toNat).length fits).View behind (held ++ [c]) ahead where
  source_eq := by simpa [Window.push, encode_append] using h.source_eq
  start_eq := h.start_eq
  stop_eq := by
    show w.stop + _ = _
    rw [h.stop_eq, encode_append]
    simp [Nat.add_assoc]

/-- The character at the front of what is ahead is taken. -/
theorem take_character {c : Char} (h : w.View behind held (encodeCode c.toNat ++ ahead)) :
    ∃ w', w'.View behind (held ++ [c]) ahead ∧ Window.take w = .ok (some c) w' := by
  obtain ⟨fits, hahead⟩ := h.ahead_character
  unfold Window.take
  rw [hahead]
  exact ⟨_, h.push fits, rfl⟩

/-- At the end of the text nothing is taken. -/
theorem take_end (h : w.View behind held []) :
    ∃ w', w'.View behind held [] ∧ Window.take w = .ok none w' := by
  unfold Window.take
  rw [h.ahead_nothing]
  exact ⟨{ w with last := none }, ⟨h.source_eq, h.start_eq, h.stop_eq⟩, rfl⟩

/-- A character that passes the test is seen ahead unless the text stops there. -/
theorem peek_eq_false_iff (h : w.View behind held ahead) (test : Char → Bool) :
    w.peek test = false ↔ Stops test ahead := by
  have hrest := h.rest_eq
  unfold peek
  rcases w.ahead_cases with ⟨hahead, hnil⟩ | ⟨m, hahead, hm⟩ | ⟨c, rest, fits, hahead, hc⟩
  · rw [hahead, ← hrest, hnil]
    exact ⟨fun _ => stops_nil test, fun _ => rfl⟩
  · rw [hahead, ← hrest]
    exact ⟨fun _ => stops_of_frontFault hm, fun _ => rfl⟩
  · rw [hahead, ← hrest, hc]
    exact stops_encodeCode.symm

/-! ## Scanning and committing -/

/-- The longest run of characters that pass the test is taken. -/
theorem takeRun {test : Char → Bool} {run : List Char}
    (h : w.View behind held (encode run ++ ahead)) (hrun : ∀ c ∈ run, test c = true)
    (hahead : Stops test ahead) :
    ∃ w', w'.View behind (held ++ run) ahead ∧ Window.takeRun test w =
      match frontFault? ahead with
      | none => .ok () w'
      | some m => .error (w'.malformedHere m) w' := by
  obtain ⟨w', hw', hsource, hstart, hstop⟩ := takeRun_cases test w
  rw [h.rest_eq, runOf_encode hrun hahead] at hw' hstop
  refine ⟨w', ⟨?_, ?_, ?_⟩, ?_⟩
  · rw [hsource, h.source_eq, encode_append, List.append_assoc]
  · rw [hstart, h.start_eq]
  · rw [hstop, h.stop_eq, encode_append, List.length_append, Nat.add_assoc]
  · rw [hw']
    cases frontFault? ahead with
    | none => rfl
    | some m => rfl

/-- A scan takes the longest run of characters that pass a test, and says whether there are any. -/
theorem scanWhile {test : Char → Bool} {run : List Char}
    (h : w.View behind held (encode run ++ ahead)) (hrun : ∀ c ∈ run, test c = true)
    (hahead : Stops test ahead) :
    ∃ w', w'.View behind (held ++ run) ahead ∧ Window.scanWhile test w =
      match frontFault? ahead with
      | none => .ok (decide (run ≠ [])) w'
      | some m => .error (w'.malformedHere m) w' := by
  obtain ⟨w', hw', htake⟩ := h.takeRun hrun hahead
  refine ⟨w', hw', ?_⟩
  rw [scanWhile_eq, htake]
  cases frontFault? ahead with
  | some m => rfl
  | none =>
    have hmoved : w.stop < w'.stop ↔ run ≠ [] := by
      rw [h.stop_eq, hw'.stop_eq, encode_append, List.length_append]
      rw [← length_encode_pos_iff]
      omega
    simp only [hmoved]

/-- Committing moves what is held behind the window. -/
theorem advance (h : w.View behind held ahead) :
    ∃ w', w'.View (behind ++ encode held) [] ahead ∧ Window.advance w = .ok () w' := by
  refine ⟨_, ⟨?_, ?_, ?_⟩, rfl⟩
  · simpa using h.source_eq
  · simpa using h.stop_eq
  · simpa using h.stop_eq

end View

end Arith.Window
