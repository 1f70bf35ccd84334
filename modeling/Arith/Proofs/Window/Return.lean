import Arith.Proofs.Window.Malformed

/-!
# Going back

Going back to a position judges it by one byte, and moves the end of the window before it reads the
character in front of it. Both show in malformed texts only. A position at which the window ended
before is refused just if it is the end of the valid part and a continuation byte stands there
(`returnsTo_of_seen`). And going to a position leaves the window moved although it fails just if no
character stands where the one in front of the position should begin (`atomic_iff`).
-/

namespace Arith.Window

open Utf8

/-! ## Where the last character begins -/

/-- The last offset in front of a position at which a character can begin, if not at `low`. -/
structure LastStart (text : Bytes) (low position offset : Nat) : Prop where
  low_le : low ≤ offset
  lt_position : offset < position
  begins : offset = low ∨ isBoundary text offset = true
  between : ∀ i : Nat, offset < i → i < position → isBoundary text i = false

/-- There is one such offset only. -/
theorem LastStart.unique {text : Bytes} {low position p q : Nat}
    (hp : LastStart text low position p) (hq : LastStart text low position q) : p = q := by
  -- a later one would be a boundary that lies between the earlier one and the position
  have later {p q : Nat} (hp : LastStart text low position p)
      (hq : LastStart text low position q) : ¬ p < q := by
    intro hlt
    have hlow := hp.low_le
    rcases hq.begins with heq | hboundary
    · omega
    · rw [hp.between q hlt hq.lt_position] at hboundary
      cases hboundary
  exact Nat.le_antisymm (Nat.le_of_not_lt (later hq hp)) (Nat.le_of_not_lt (later hp hq))

theorem lastStart_characterStart (text : Bytes) {low n : Nat} (h : low ≤ n) :
    LastStart text low (n + 1) (characterStart text low n) := by
  induction n with
  | zero => exact ⟨h, Nat.one_pos, Or.inl (Nat.le_zero.1 h).symm, fun i hi hlt => by omega⟩
  | succ n ih =>
    rw [characterStart]
    by_cases hgo : low < n + 1 ∧ (!isBoundary text (n + 1 : Nat)) = true
    · have hlast := ih (Nat.le_of_lt_succ hgo.1)
      have hinside : isBoundary text (n + 1 : Nat) = false := by simpa using hgo.2
      rw [if_pos hgo]
      refine ⟨hlast.low_le, Nat.lt_succ_of_lt hlast.lt_position, hlast.begins, ?_⟩
      intro i hi hlt
      rcases Nat.eq_or_lt_of_le (Nat.le_of_lt_succ hlt) with rfl | hlt
      · exact hinside
      · exact hlast.between i hi hlt
    · rw [if_neg hgo]
      refine ⟨h, Nat.lt_succ_self _, ?_, fun i hi hlt => by omega⟩
      rcases Nat.eq_or_lt_of_le h with heq | hlt
      · exact Or.inl heq.symm
      · refine Or.inr (Bool.of_not_eq_false fun hfalse => hgo ⟨hlt, ?_⟩)
        rw [hfalse]
        rfl

/-- The last character cannot be read just if malformed bytes stand where it should begin. -/
theorem lastCharacter_eq_error_iff {w : Window} {e : TextError} :
    w.lastCharacter = .error e ↔
      ∃ offset m, LastStart w.source w.start w.stop offset ∧
        frontFault? (w.source.drop offset) = some m ∧ e = .ofMalformed offset m := by
  have hordered := w.ordered
  unfold lastCharacter
  by_cases hempty : w.stop = w.start
  · rw [if_pos hempty]
    refine ⟨nofun, fun ⟨offset, m, hlast, _⟩ => ?_⟩
    have hlow := hlast.low_le
    have hlt := hlast.lt_position
    omega
  · rw [if_neg hempty]
    have hlast : LastStart w.source w.start (w.stop - 1 + 1)
        (characterStart w.source w.start (w.stop - 1)) :=
      lastStart_characterStart w.source (by omega)
    rw [Nat.sub_add_cancel (by omega)] at hlast
    generalize characterStart w.source w.start (w.stop - 1) = start at hlast
    dsimp only
    constructor
    · intro h
      cases hdrop : w.source.drop start with
      | nil =>
        rw [hdrop] at h
        cases h
      | cons lead rest =>
        cases hdecode : decodeHead lead rest with
        | ok found =>
          simp only [hdrop, hdecode] at h
          cases h
        | error m =>
          simp only [hdrop, hdecode] at h
          cases h
          exact ⟨start, m, hlast, by rw [hdrop, frontFault?, hdecode], rfl⟩
    · rintro ⟨offset, m, hlast', hm, rfl⟩
      obtain rfl := hlast'.unique hlast
      obtain ⟨lead, rest, hdrop, hdecode⟩ := exists_of_frontFault hm
      simp only [hdrop, hdecode]

/-! ## Failures that move the window -/

/-- Going to a position ends there, or it is refused and has changed nothing. -/
def Atomic (w : Window) (position : Int) : Prop :=
  (∃ w', backtrack position w = .ok () w' ∧
    (w'.stop : Int) = position ∧ w'.start = w.start ∧ w'.source = w.source) ∨
  ∃ f, backtrack position w = .error f w ∧ ∀ e, f ≠ .text e

/--
A position is accepted, and malformed bytes stand where the character in front of it should begin.
-/
structure MalformedBefore (w : Window) (position : Int) (offset : Nat) (m : Malformed) : Prop where
  boundary : isBoundary w.source position = true
  moves : position ≠ w.stop
  lastStart : LastStart w.source w.start position.toNat offset
  malformed : frontFault? (w.source.drop offset) = some m

/-- The error for malformed bytes tells them and where they stand. -/
theorem ofMalformed_inj {p q : Nat} {m n : Malformed}
    (h : TextError.ofMalformed p m = .ofMalformed q n) : p = q ∧ m = n := by
  have hstart : p = q := congrArg (fun e : TextError => e.span.start) h
  have hfault : TextFault.malformed m = .malformed n := congrArg TextError.fault h
  exact ⟨hstart, TextFault.malformed.inj hfault⟩

/-- Going to a position fails at malformed bytes just if they stand before it. -/
theorem malformedBefore_iff {w : Window} {position : Int} {offset : Nat} {m : Malformed} :
    MalformedBefore w position offset m ↔
      ∃ w', backtrack position w = .error (.text (.ofMalformed offset m)) w' ∧
        (w'.stop : Int) = position ∧ w'.source = w.source ∧ w'.start = w.start ∧
        w'.last = w.last := by
  constructor
  · intro h
    have hlow := h.lastStart.low_le
    have hlt := h.lastStart.lt_position
    rcases w.backtrack_cases position with
      ⟨f, -, -, hrefused⟩ | ⟨-, ⟨hstop, -⟩ | ⟨-, moved, hsource, hstart, hstop, hlast, hback⟩⟩
    · exact absurd ⟨by omega, h.boundary⟩ hrefused
    · exact absurd hstop h.moves
    · have hplace : moved.stop = position.toNat := by omega
      have herror : moved.lastCharacter = .error (.ofMalformed offset m) := by
        refine lastCharacter_eq_error_iff.2 ⟨offset, m, ?_, ?_, rfl⟩
        · rw [hsource, hstart, hplace]
          exact h.lastStart
        · rw [hsource]
          exact h.malformed
      rw [herror] at hback
      exact ⟨moved, hback, hstop, hsource, hstart, hlast⟩
  · rintro ⟨w', hfails, -⟩
    rcases w.backtrack_cases position with
      ⟨f, hback, htext, -⟩ | ⟨⟨-, hboundary⟩, ⟨-, hback⟩ |
        ⟨hmoves, moved, hsource, hstart, hstop, -, hback⟩⟩
    · rw [hback] at hfails
      cases hfails
      exact absurd rfl (htext _)
    · rw [hback] at hfails
      cases hfails
    · have hplace : moved.stop = position.toNat := by omega
      rw [hback] at hfails
      cases hlast : moved.lastCharacter with
      | ok last =>
        rw [hlast] at hfails
        cases hfails
      | error e =>
        rw [hlast] at hfails
        obtain ⟨offset', m', hlast', hm, he⟩ := lastCharacter_eq_error_iff.1 hlast
        rw [hsource, hstart, hplace] at hlast'
        rw [hsource] at hm
        cases hfails
        obtain ⟨rfl, rfl⟩ := ofMalformed_inj he
        exact ⟨hboundary, hmoves, hlast', hm⟩

/--
**Going to a position is atomic unless the bytes before it are malformed.** In all other cases the
window ends at the position, or the position is refused and the window is left as it was. If they
are malformed, they are reported, and the window ends at the position already with the last
character that it had.
-/
theorem atomic_iff (w : Window) (position : Int) :
    (Atomic w position ↔ ¬ ∃ offset m, MalformedBefore w position offset m) ∧
      ∀ offset m, MalformedBefore w position offset m ↔
        ∃ w', backtrack position w = .error (.text (.ofMalformed offset m)) w' ∧
          (w'.stop : Int) = position ∧ w'.source = w.source ∧ w'.start = w.start ∧
          w'.last = w.last := by
  refine ⟨⟨?_, ?_⟩, fun offset m => malformedBefore_iff⟩
  · rintro hatomic ⟨offset, m, hbefore⟩
    obtain ⟨w', hfails, -⟩ := malformedBefore_iff.1 hbefore
    rcases hatomic with ⟨w', hback, -⟩ | ⟨f, hback, htext⟩
    · rw [hfails] at hback
      cases hback
    · rw [hfails] at hback
      cases hback
      exact htext _ rfl
  · intro hnone
    rcases w.backtrack_cases position with
      ⟨f, hback, htext, -⟩ | ⟨-, ⟨hstop, hback⟩ |
        ⟨-, moved, hsource, hstart, hstop, hkept, hback⟩⟩
    · exact Or.inr ⟨f, hback, htext⟩
    · exact Or.inl ⟨w, hback, hstop.symm, rfl, rfl⟩
    · cases hlast : moved.lastCharacter with
      | ok last =>
        rw [hlast] at hback
        exact Or.inl ⟨_, hback, hstop, hstart, hsource⟩
      | error e =>
        rw [hlast] at hback
        obtain ⟨offset, m, -, -, rfl⟩ := lastCharacter_eq_error_iff.1 hlast
        have hfails := malformedBefore_iff.2 ⟨moved, hback, hstop, hsource, hstart, hkept⟩
        exact absurd ⟨offset, m, hfails⟩ hnone

/-- Behind a byte with which no character begins the window has moved when this is found out. -/
theorem not_atomic_malformed :
    ¬ ∀ (source : Bytes) (ops : List Operation) (position : Int),
      Atomic (trace perform (ofBytes source) ops).2 position := by
  intro h
  obtain ⟨moved, hfails, hstop⟩ : ∃ moved, backtrack 1 (ofBytes [0xFF, 0x41])
      = .error (.text (.ofMalformed 0 (.badLead 0xFF))) moved ∧ moved.stop = 1 := ⟨_, rfl, rfl⟩
  rcases h [0xFF, 0x41] [] 1 with ⟨w', hback, -⟩ | ⟨f, hback, -⟩
  · cases hfails.symm.trans hback
  · cases hfails.symm.trans hback
    cases hstop

/-! ## Windows that were seen -/

/-- A scan comes through a window: it takes characters that pass its test one by one. -/
inductive Passes (test : Char → Bool) : Window → Window → Prop
  | here (w : Window) : Passes test w w
  | further {w w' v : Window} : takeIf test w = .ok true w' → Passes test w' v → Passes test w v

/-- The windows through which an operation comes. -/
def Operation.ComesThrough (w v : Window) : Operation → Prop
  | .scanWhile test => Passes test w v
  | .scanUntil test => Passes (fun c => !test c) w v
  | _ => False

/--
The windows that were seen over a text, with the present one, when operations were performed on it
and all going back was to the ends of windows that were seen before.
-/
inductive History (source : Bytes) : Window → List Window → Prop
  | fresh : History source (ofBytes source) [ofBytes source]
  | perform {w : Window} {seen : List Window} (h : History source w seen) (op : Operation)
      (passed : List Window) (hpassed : ∀ v ∈ passed, op.ComesThrough w v)
      (hback : ∀ position, op = .backtrack position → ∃ v ∈ seen, position = v.stop) :
      History source (perform w op).2 ((perform w op).2 :: passed ++ seen)

/-- Going back to the end of another window ends there, and shows what lies in front of it. -/
def ReturnsTo (w v : Window) : Prop :=
  ∃ w', backtrack v.stop w = .ok () w' ∧ w'.stop = v.stop ∧ w'.start = w.start ∧
    w'.bytes = (w.source.take v.stop).drop w.start ∧ (v.start = w.start → w'.bytes = v.bytes)

/-- A continuation byte stands behind the valid part of a text, which is not empty. -/
def HasStray (source : Bytes) : Prop :=
  0 < validLength source ∧ ∃ b, source[validLength source]? = some b ∧ isContinuation b = true

variable {text : List Char} {bad : Bytes} {w v : Window} {c c' : Cursor text}

/-- The end of a window in the valid part is a boundary unless a stray byte stands there. -/
theorem StandsAt.isBoundary_eq_false_iff (h : w.StandsAt c bad) :
    isBoundary w.source w.stop = false ↔
      w.stop = (encode text).length ∧ 0 < (encode text).length ∧
        ∃ b, w.source[(encode text).length]? = some b ∧ isContinuation b = true := by
  rw [Utf8.isBoundary_eq_false_iff w.inside]
  constructor
  · intro hstray
    have hend : w.stop = (encode text).length := by
      rcases Nat.eq_or_lt_of_le c.inside with heq | hlt
      · rw [h.stop_eq, heq, offset_length]
      · have hboundary := isBoundary_offset hlt bad
        rw [← h.source_eq, ← h.stop_eq] at hboundary
        rw [(Utf8.isBoundary_eq_false_iff w.inside).2 hstray] at hboundary
        cases hboundary
    rw [hend] at hstray
    exact ⟨hend, hstray⟩
  · rintro ⟨hend, hstray⟩
    rw [hend]
    exact hstray

/-- A window goes back to where another one ends in the valid part, if a boundary is there. -/
theorem StandsAt.backtrack (h : w.StandsAt c bad) (hv : v.StandsAt c' bad)
    (hstart : w.start ≤ v.stop) (hboundary : isBoundary v.source v.stop = true) :
    ∃ (w' : Window) (c'' : Cursor text), w'.StandsAt c'' bad ∧ w'.start = w.start ∧
      w'.stop = v.stop ∧ Window.backtrack v.stop w = .ok () w' := by
  have hordered : c.start ≤ c'.stop := by
    refine Nat.le_of_not_lt fun hlt => ?_
    have := offset_lt_offset hlt (Nat.le_trans c.ordered c.inside)
    rw [h.start_eq, hv.stop_eq] at hstart
    omega
  let target : Cursor text := ⟨c.start, c'.stop, hordered, c'.inside⟩
  have hsame : target.start = c.start := rfl
  rw [hv.source_eq, ← h.source_eq, hv.stop_eq] at hboundary
  obtain ⟨w', hw', hback⟩ := h.backtrack_place hsame hboundary
  rw [hv.stop_eq]
  exact ⟨w', target, hw', hw'.start_eq.trans h.start_eq.symm, hw'.stop_eq, hback⟩

/-- Also where a scan comes through, the window is in the valid part. -/
theorem StandsAt.passes (h : w.StandsAt c bad) (hbad : Unreadable bad) {test : Char → Bool}
    (hpasses : Passes test w v) : ∃ c' : Cursor text, v.StandsAt c' bad := by
  induction hpasses generalizing c with
  | here => exact ⟨c, h⟩
  | further htake _ ih =>
    have hafter := (h.takeIf hbad test).standsAt
    rw [Window.perform, htake] at hafter
    exact ih hafter

/-- Also where an operation comes through, the window is in the valid part. -/
theorem StandsAt.comesThrough (h : w.StandsAt c bad) (hbad : Unreadable bad) {op : Operation}
    (hthrough : op.ComesThrough w v) : ∃ c' : Cursor text, v.StandsAt c' bad := by
  cases op with
  | scanWhile test => exact h.passes hbad hthrough
  | scanUntil test => exact h.passes hbad hthrough
  | _ => exact hthrough.elim

/-- **An operation stays in the valid part**, if going back is to where a window ends in it. -/
theorem StandsAt.perform_seen (h : w.StandsAt c bad) (hbad : Unreadable bad) {op : Operation}
    (hback : ∀ position, op = .backtrack position →
      ∃ (v : Window) (c' : Cursor text), v.StandsAt c' bad ∧ position = v.stop) :
    ∃ c' : Cursor text, (Window.perform w op).2.StandsAt c' bad := by
  cases op with
  | backtrack position =>
    obtain ⟨v, c', hv, rfl⟩ := hback position rfl
    rw [Window.perform]
    rcases w.backtrack_cases v.stop with ⟨f, hrefused, -⟩ | ⟨⟨hstart, hboundary⟩, -⟩
    · rw [hrefused]
      exact ⟨c, h⟩
    · rw [h.source_eq, ← hv.source_eq] at hboundary
      obtain ⟨w', c'', hw', -, -, hreturned⟩ := h.backtrack hv (Int.ofNat_le.1 hstart) hboundary
      rw [hreturned]
      exact ⟨c'', hw'⟩
  | _ => exact ⟨_, (h.perform hbad rfl).standsAt⟩

/-- **All windows that were seen are in the valid part of the text.** -/
theorem History.standsAt {source : Bytes} {seen : List Window} (h : History source w seen) :
    (∃ c : Cursor (validText source), w.StandsAt c (invalidPart source)) ∧
      ∀ v ∈ seen, ∃ c : Cursor (validText source), v.StandsAt c (invalidPart source) := by
  have hbad := (encode_validText_append source).2.2
  induction h with
  | fresh =>
    have hfresh := standsAt_ofBytes source
    exact ⟨⟨_, hfresh⟩, List.forall_mem_singleton.2 ⟨_, hfresh⟩⟩
  | @perform w seen h op passed hpassed hback ih =>
    obtain ⟨⟨c, hw⟩, hseen⟩ := ih
    have hafter : ∃ c : Cursor (validText source),
        (Window.perform w op).2.StandsAt c (invalidPart source) := by
      refine hw.perform_seen hbad fun position hop => ?_
      obtain ⟨v, hv, hposition⟩ := hback position hop
      obtain ⟨c', hv⟩ := hseen v hv
      exact ⟨v, c', hv, hposition⟩
    refine ⟨hafter, List.forall_mem_cons.2 ⟨hafter, fun v hv => ?_⟩⟩
    rcases List.mem_append.1 hv with hv | hv
    · exact hw.comesThrough hbad (hpassed v hv)
    · exact hseen v hv

/-! ## Returning -/

/-- Where a boundary is, a window returns to the end of another one in the valid part. -/
theorem StandsAt.returnsTo (h : w.StandsAt c bad) (hv : v.StandsAt c' bad)
    (hstart : w.start ≤ v.stop) (hboundary : isBoundary v.source v.stop = true) :
    ReturnsTo w v := by
  obtain ⟨w', c'', hw', hsame, hstop, hback⟩ := h.backtrack hv hstart hboundary
  have hsource : w'.source = w.source := hw'.source_eq.trans h.source_eq.symm
  have hother : v.source = w.source := hv.source_eq.trans h.source_eq.symm
  refine ⟨w', hback, hstop, hsame, ?_, fun hstart => ?_⟩
  · rw [Window.bytes, hsource, hstop, hsame]
  · rw [Window.bytes, Window.bytes, hsource, hother, hstop, hsame, hstart]

/-- A position in the text that is no boundary is refused. -/
theorem backtrack_inside {position : Nat} (hstart : w.start ≤ position)
    (hinside : position ≤ w.source.length) (hboundary : isBoundary w.source position = false) :
    Window.backtrack position w = .error (.insideCharacter position) w := by
  unfold Window.backtrack
  rw [dif_neg (by omega), hboundary]
  rfl

/--
**A window returns to where it ended before unless a stray byte stands there.** It then ends there
and shows what it showed, if it has not been committed in between. A position that was seen is
refused just if it is the end of the valid part of the text, this part is not empty, and a
continuation byte stands behind it, which belongs to no character.
-/
theorem returnsTo_of_seen {source : Bytes} {seen : List Window} (h : History source w seen)
    (hv : v ∈ seen) (hstart : w.start ≤ v.stop) :
    (ReturnsTo w v ↔ ¬ (v.stop = validLength source ∧ HasStray source)) ∧
      (Window.backtrack v.stop w = .error (.insideCharacter v.stop) w ↔
        v.stop = validLength source ∧ HasStray source) := by
  obtain ⟨hsource, hlength, -⟩ := encode_validText_append source
  obtain ⟨⟨c, hw⟩, hseen⟩ := h.standsAt
  obtain ⟨c', hv⟩ := hseen v hv
  have hws : w.source = source := hw.source_eq.trans hsource
  have hvs : v.source = source := hv.source_eq.trans hsource
  have hstray : isBoundary v.source v.stop = false ↔
      v.stop = validLength source ∧ HasStray source := by
    rw [hv.isBoundary_eq_false_iff, hlength, hvs]
    rfl
  cases hboundary : isBoundary v.source v.stop with
  | true =>
    have hnot : ¬ (v.stop = validLength source ∧ HasStray source) := by
      rw [← hstray, hboundary]
      nofun
    have hreturns : ReturnsTo w v := hw.returnsTo hv hstart hboundary
    refine ⟨iff_of_true hreturns hnot, iff_of_false ?_ hnot⟩
    obtain ⟨w', hback, -⟩ := hreturns
    rw [hback]
    nofun
  | false =>
    have hend := hstray.1 hboundary
    have hhigh := v.inside
    rw [hvs, ← hws] at hboundary hhigh
    have hfails := backtrack_inside hstart hhigh hboundary
    refine ⟨iff_of_false ?_ (not_not_intro hend), iff_of_true hfails hend⟩
    rintro ⟨w', hback, -⟩
    rw [hfails] at hback
    cases hback

/-- Behind a letter stands a continuation byte: the window returns to the letter only. -/
theorem returnsTo_of_seen_letter :
    let fresh := ofBytes [0x41, 0x80]
    let w := (perform fresh .take).2
    History [0x41, 0x80] w [w, fresh] ∧ HasStray [0x41, 0x80] ∧ w.start ≤ fresh.stop ∧
      ReturnsTo w fresh ∧ w.start ≤ w.stop ∧
      backtrack w.stop w = .error (.insideCharacter w.stop) w := by
  intro fresh w
  have hseen : History [0x41, 0x80] w [w, fresh] := History.fresh.perform .take [] nofun nofun
  have hbad : Unreadable [0x80] := fun h => nomatch h
  have hlength : validLength [0x41, 0x80] = 1 := (validText_encode_append ['A'] hbad).2
  have hstray : HasStray [0x41, 0x80] := by
    rw [HasStray, hlength]
    exact ⟨Nat.one_pos, 0x80, rfl, rfl⟩
  have hfresh : fresh.stop ≠ validLength [0x41, 0x80] := by
    rw [hlength]
    exact Nat.zero_ne_one
  have hend : w.stop = validLength [0x41, 0x80] := hlength.symm
  have hmem : fresh ∈ [w, fresh] := List.mem_cons_of_mem _ (List.mem_singleton_self _)
  refine ⟨hseen, hstray, Nat.le_refl _, ?_, w.ordered, ?_⟩
  · exact (returnsTo_of_seen hseen hmem (Nat.le_refl _)).1.2 fun h => hfresh h.1
  · exact (returnsTo_of_seen hseen List.mem_cons_self w.ordered).2.2 ⟨hend, hstray⟩

/-- A window does not even return to where it ends, if a stray byte stands there. -/
theorem not_returnsTo_stray :
    ¬ ∀ (source : Bytes) (w v : Window) (seen : List Window),
      History source w seen → v ∈ seen → w.start ≤ v.stop → ReturnsTo w v := by
  intro h
  let w := (perform (ofBytes [0x41, 0x80]) .take).2
  have hseen : History [0x41, 0x80] w [w, ofBytes [0x41, 0x80]] :=
    History.fresh.perform .take [] nofun nofun
  have hfails : backtrack w.stop w = .error (.insideCharacter 1) w := rfl
  obtain ⟨w', hback, -⟩ := h _ w w _ hseen List.mem_cons_self w.ordered
  cases hfails.symm.trans hback

end Arith.Window
