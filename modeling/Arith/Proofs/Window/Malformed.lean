import Arith.Proofs.Text.Valid
import Arith.Proofs.Window.Cursor

/-!
# Windows over malformed texts

A window that only goes forward never enters malformed bytes: it stands at the places of a cursor
over the valid part of its text, whatever stands behind this part. It fails just where an operation
reads at the end of the valid part although the text goes on there (`trace_malformed`).
-/

namespace Arith.Window

open Utf8

/-! ## Where reading fails -/

/--
Where an operation reads last, if it fails at malformed bytes: at the place of the only character
that it may take, or where its scan has ended.
-/
def Operation.lastRead? (w w' : Window) : Operation → Option Nat
  | .take | .takeIf _ => some w.stop
  | .scanWhile _ | .scanUntil _ => some w'.stop
  | .peek _ | .backtrack _ | .advance => none

/-- The fault of an answer. -/
def fault? : Answer → Option Fault
  | .ok _ => none
  | .error f => some f

/-- The fault of reading at a place of a text, if malformed bytes stand there. -/
def faultAt? (source : Bytes) (place : Nat) : Option Fault :=
  (frontFault? (source.drop place)).map fun m => .text (.ofMalformed place m)

theorem fault?_eq_some_iff {answer : Answer} {f : Fault} :
    fault? answer = some f ↔ answer = .error f := by
  cases answer with
  | ok a => exact ⟨nofun, nofun⟩
  | error e => exact ⟨fun h => by cases h; rfl, fun h => by cases h; rfl⟩

/-- One character is taken or not, or it fails at malformed bytes and changes nothing. -/
theorem perform_one_cases {op : Operation} (hop : op = .take ∨ ∃ test, op = .takeIf test)
    (w : Window) :
    (∃ m, frontFault? w.rest = some m ∧ perform w op = (.error (w.malformedHere m), w)) ∨
      frontFault? w.rest = none ∧ ∃ answer w', perform w op = (.ok answer, w') := by
  rcases w.ahead_cases with ⟨hahead, hnil⟩ | ⟨m, hahead, hm⟩ | ⟨c, rest, fits, hahead, hc⟩
  · rw [hnil]
    rcases hop with rfl | ⟨test, rfl⟩
    · exact Or.inr ⟨rfl, _, _, by rw [perform, Window.take, hahead]; rfl⟩
    · exact Or.inr ⟨rfl, _, _, by rw [perform, Window.takeIf, hahead]; rfl⟩
  · rcases hop with rfl | ⟨test, rfl⟩
    · exact Or.inl ⟨m, hm, by rw [perform, Window.take, hahead]; rfl⟩
    · exact Or.inl ⟨m, hm, by rw [perform, Window.takeIf, hahead]; rfl⟩
  · rw [hc, frontFault?_encodeCode]
    rcases hop with rfl | ⟨test, rfl⟩
    · exact Or.inr ⟨rfl, _, _, by rw [perform, Window.take, hahead]; rfl⟩
    · refine Or.inr ⟨rfl, ?_⟩
      rw [perform, Window.takeIf, hahead]
      cases htest : test c with
      | false => exact ⟨_, _, by simp only [htest, Bool.false_eq_true, if_false]; rfl⟩
      | true => exact ⟨_, _, by simp only [htest, if_true]; rfl⟩

theorem fault?_one {op : Operation} (hop : op = .take ∨ ∃ test, op = .takeIf test) (w : Window) :
    fault? (perform w op).1 = faultAt? w.source w.stop := by
  show _ = (frontFault? w.rest).map w.malformedHere
  rcases perform_one_cases hop w with ⟨m, hm, hfails⟩ | ⟨hnone, answer, w', hone⟩
  · rw [hm, hfails]
    rfl
  · rw [hnone, hone]
    rfl

/-- Taking one character changes nothing where it fails. -/
theorem perform_one_of_error {op : Operation} (hop : op = .take ∨ ∃ test, op = .takeIf test)
    {w : Window} {f : Fault} (hf : (perform w op).1 = .error f) : (perform w op).2 = w := by
  rcases perform_one_cases hop w with ⟨m, -, hfails⟩ | ⟨-, answer, w', hone⟩
  · rw [hfails]
  · rw [hone] at hf
    cases hf

/-- What is wrong with a run is what is wrong with the bytes behind it. -/
theorem fault_runOf (test : Char → Bool) (bytes : Bytes) :
    (runOf test bytes).fault = frontFault? (bytes.drop (runOf test bytes).width) := by
  obtain ⟨run, rest, rfl, hrun, hrest⟩ := exists_run test bytes
  rw [runOf_encode hrun hrest]
  dsimp only
  rw [List.drop_left]

theorem fault?_scanWhile (w : Window) (test : Char → Bool) :
    fault? (outcome some (Window.scanWhile test w)).1
      = faultAt? w.source (outcome some (Window.scanWhile test w)).2.stop := by
  obtain ⟨w', htake, -, -, hstop⟩ := takeRun_cases test w
  have hfault : (runOf test w.rest).fault = frontFault? (w.source.drop w'.stop) := by
    rw [fault_runOf, Window.rest, List.drop_drop, hstop]
    rfl
  rw [scanWhile_eq, htake, hfault]
  unfold faultAt?
  cases hm : frontFault? (w.source.drop w'.stop) with
  | none => simp [outcome, fault?, hm]
  | some m => simp [outcome, fault?, hm, malformedHere]

/-- An operation that goes forward fails just if malformed bytes stand where it reads last. -/
theorem fault?_perform {op : Operation} (hop : op.isForward = true) (w : Window) :
    fault? (perform w op).1
      = (op.lastRead? w (perform w op).2).bind fun place => faultAt? w.source place := by
  cases op with
  | take => exact fault?_one (Or.inl rfl) w
  | takeIf test => exact fault?_one (Or.inr ⟨test, rfl⟩) w
  | scanWhile test => exact fault?_scanWhile w test
  | scanUntil test => exact fault?_scanWhile w fun c => !test c
  | peek test => rfl
  | advance => rfl
  | backtrack position => cases hop

/-! ## A window at places of the valid part -/

variable {text : List Char} {bad : Bytes} {w : Window} {c : Cursor text}

/-- At the beginning a window stands at the beginning of the valid part of its text. -/
theorem standsAt_ofBytes (source : Bytes) :
    (ofBytes source).StandsAt (.origin (validText source)) (invalidPart source) :=
  ⟨(encode_validText_append source).1.symm, rfl, rfl, Or.inl rfl⟩

theorem StandsAt.stop_le (h : w.StandsAt c bad) : w.stop ≤ (encode text).length := by
  rw [h.stop_eq, ← offset_length]
  exact offset_le_offset text c.inside

/-- Reading fails just at the end of the valid part, if the text goes on there. -/
theorem StandsAt.fault_iff (h : w.StandsAt c bad) (hbad : Unreadable bad) :
    (∃ f, faultAt? w.source w.stop = some f) ↔
      (encode text).length < w.source.length ∧ w.stop = (encode text).length := by
  have hmore : (encode text).length < w.source.length ↔ 0 < bad.length := by
    rw [h.source_eq, List.length_append]
    exact Nat.lt_add_right_iff_pos
  have hfault : (∃ f, faultAt? w.source w.stop = some f) ↔ ∃ m, frontFault? w.rest = some m := by
    show (∃ f, (frontFault? w.rest).map w.malformedHere = some f) ↔ _
    cases frontFault? w.rest <;> simp
  rw [hfault, hmore, h.stop_eq_iff, ← hbad.frontFault_iff, h.view.rest_eq]
  simp only [frontFault?_encode_append_iff, exists_and_left]
  exact And.comm

/-! ## Going forward -/

theorem StandsAt.trace (h : w.StandsAt c bad) (hbad : Unreadable bad) {ops : List Operation}
    (hops : ∀ op ∈ ops, op.isForward = true) :
    (trace Window.perform w ops).2.StandsAt (Window.trace Cursor.perform c ops).2 bad := by
  induction ops generalizing w c with
  | nil => exact h
  | cons op ops ih =>
    obtain ⟨hop, hops⟩ := List.forall_mem_cons.1 hops
    exact ih (h.perform hbad hop).standsAt hops

/-- Where an operation reads last, the window stands before or after it. -/
theorem StandsAt.lastRead (h : w.StandsAt c bad) (hbad : Unreadable bad) {op : Operation}
    (hop : op.isForward = true) {place : Nat}
    (hplace : op.lastRead? w (Window.perform w op).2 = some place) :
    (∃ f, faultAt? w.source place = some f) ↔
      (encode text).length < w.source.length ∧ place = (encode text).length := by
  have hafter := (h.perform hbad hop).standsAt
  have hsource : (Window.perform w op).2.source = w.source :=
    hafter.source_eq.trans h.source_eq.symm
  rcases (show place = w.stop ∨ place = (Window.perform w op).2.stop by
    cases op <;> cases hplace <;> simp) with rfl | rfl
  · exact h.fault_iff hbad
  · have := hafter.fault_iff hbad
    rwa [hsource] at this

/-- An operation that goes forward fails just if it reads last at the end of the valid part. -/
theorem StandsAt.error_iff (h : w.StandsAt c bad) (hbad : Unreadable bad) {op : Operation}
    (hop : op.isForward = true) :
    (∃ f, (Window.perform w op).1 = .error f) ↔
      (encode text).length < w.source.length ∧
        op.lastRead? w (Window.perform w op).2 = some (encode text).length := by
  simp only [← fault?_eq_some_iff, fault?_perform hop]
  cases hplace : op.lastRead? w (Window.perform w op).2 with
  | none => simp
  | some place =>
    rw [Option.bind_some, h.lastRead hbad hop hplace, Option.some_inj]

/--
**A window that goes forward stays in the valid part of its text.** After any operations but going
back, in a text that is malformed from some offset on or nowhere, the window lies in front of this
offset and holds the characters that were taken since it was committed. An operation fails just if
it reads last at this offset and the text goes on there, always with the malformed bytes at this
offset; taking one character then changes nothing. And a run that has ended is at a place to which
the window can go back, which changes nothing.
-/
theorem trace_malformed (source : Bytes) {ops : List Operation}
    (hops : ∀ op ∈ ops, op.isForward = true) :
    let w := (trace perform (ofBytes source) ops).2
    let c := (trace Cursor.perform (.origin (validText source)) ops).2
    let p := validLength source
    (w.start ≤ w.stop ∧ w.stop ≤ p) ∧ w.text? = some c.held ∧
      (∀ op : Operation, op.isForward = true →
        ((∃ f, (perform w op).1 = .error f) ↔
          p < source.length ∧ op.lastRead? w (perform w op).2 = some p) ∧
        ∀ f, (perform w op).1 = .error f →
          (∃ m, frontFault? (source.drop p) = some m ∧ f = .text (.ofMalformed p m)) ∧
          ((op = .take ∨ ∃ test, op = .takeIf test) → (perform w op).2 = w)) ∧
      ∀ test w', takeRun test w = .ok () w' → backtrack w'.stop w' = .ok () w' := by
  intro w c p
  obtain ⟨-, hlength, hbad⟩ := encode_validText_append source
  have hstands : w.StandsAt c (invalidPart source) := (standsAt_ofBytes source).trace hbad hops
  have hsource : w.source = source := hstands.source_eq.trans (encode_validText_append source).1
  have hp : (encode (validText source)).length = p := hlength
  refine ⟨⟨w.ordered, hp ▸ hstands.stop_le⟩, hstands.view.text?_eq, ?_, ?_⟩
  · intro op hop
    have herror := hstands.error_iff hbad hop
    rw [hp, hsource] at herror
    refine ⟨herror, fun f hf => ⟨?_, fun hone => perform_one_of_error hone hf⟩⟩
    -- the fault is that of the last place that is read, which is the end of the valid part
    have hfault := fault?_perform hop w
    rw [fault?_eq_some_iff.2 hf, (herror.1 ⟨f, hf⟩).2, Option.bind_some] at hfault
    obtain ⟨m, hm, rfl⟩ := Option.map_eq_some_iff.1 hfault.symm
    rw [hsource] at hm
    exact ⟨m, hm, rfl⟩
  · intro test w' hrun
    exact backtrack_stop_of_takeRun hrun

/-- Behind a letter stands a byte with which no character begins: it is not taken. -/
theorem trace_malformed_letter :
    let ops : List Operation := [.take]
    let w := (trace perform (ofBytes [0x41, 0xFF]) ops).2
    (∀ op ∈ ops, op.isForward = true) ∧ w.text? = some ['A'] ∧
      validLength [0x41, 0xFF] = 1 ∧
      ∃ f, (perform w .take).1 = .error f ∧ (perform w .take).2 = w ∧
        ∃ m, f = .text (.ofMalformed 1 m) := by
  intro ops w
  have hops : ∀ op ∈ ops, op.isForward = true := by decide
  have hbad : Unreadable [0xFF] := fun h => nomatch h
  obtain ⟨hvalid, hlength⟩ : validText [0x41, 0xFF] = ['A'] ∧ validLength [0x41, 0xFF] = 1 :=
    validText_encode_append ['A'] hbad
  obtain ⟨-, htext, hfails, -⟩ := trace_malformed [0x41, 0xFF] hops
  obtain ⟨herror, hfault⟩ := hfails .take rfl
  obtain ⟨f, hf⟩ := herror.2 ⟨by rw [hlength]; decide, by rw [hlength]; rfl⟩
  obtain ⟨⟨m, -, hm⟩, hsame⟩ := hfault f hf
  refine ⟨hops, ?_, hlength, f, hf, hsame (Or.inl rfl), m, ?_⟩
  · rw [htext, hvalid]
    rfl
  · rw [hm, hlength]

end Arith.Window
