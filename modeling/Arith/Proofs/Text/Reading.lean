import Arith.Proofs.Text.Offset
import Arith.Proofs.Text.Valid

/-!
# Reading a whole text

A text is read at one offset after the other, each behind what was read before (`readFrom`). At
malformed bytes reading either stops or puts U+FFFD for one byte. The first is what `strictFrom`
does, the second what `lenientFrom` does (`readFrom_false`, `readFrom_true`).

* `strictFrom_exact` — what is read before reading stops is the longest encoding at the front of a
  text, and it stops at the end just if all of the text is one
* `lenientFrom_resync` — where it does not stop, it reads at every byte that can begin a character,
  so that malformed bytes hide nothing behind them
-/

namespace Arith.Utf8

/-! ## One offset after the other -/

section Steps

variable {replace : Bool} {text : Bytes} {start : Nat}

theorem readFrom_end (h : text.length ≤ start) : readFrom replace text start = ([], none) := by
  rw [readFrom, if_neg (Nat.not_lt.2 h)]

theorem readFrom_ok {c : Char} {width : Nat} (h : start < text.length)
    (hread : readAt replace text start = .ok (c, width)) :
    readFrom replace text start
      = ((start, c) :: (readFrom replace text (start + width)).1,
          (readFrom replace text (start + width)).2) := by
  rw [readFrom, if_pos h]
  split
  next f hf =>
    rw [hread] at hf
    cases hf
  next c' width' hok =>
    rw [hread] at hok
    cases hok
    rfl

theorem readFrom_error {f : DecodeFault} (h : start < text.length)
    (hread : readAt replace text start = .error f) :
    readFrom replace text start = ([], some f) := by
  rw [readFrom, if_pos h]
  split
  next f' hf =>
    rw [hread] at hf
    cases hf
    rfl
  next c width hok =>
    rw [hread] at hok
    cases hok

end Steps

theorem readAt_encodeCode (replace : Bool) (c : Char) (pre post : Bytes) :
    readAt replace (pre ++ (encodeCode c.toNat ++ post)) pre.length
      = .ok (c, (encodeCode c.toNat).length) := by
  rw [readAt, decodeAt_encodeCode]

section Malformed

variable {lead : UInt8} {rest : Bytes} {m : Malformed}

theorem decodeAt_malformed (h : decodeHead lead rest = .error m) (pre : Bytes) :
    decodeAt (pre ++ lead :: rest) pre.length = .error (.text (.ofMalformed pre.length m)) := by
  rw [decodeAt_natCast, List.drop_left]
  dsimp only
  rw [h]

theorem readAt_malformed (h : decodeHead lead rest = .error m) (replace : Bool) (pre : Bytes) :
    readAt replace (pre ++ lead :: rest) pre.length
      = if replace then .ok (replacement, 1)
        else .error (.text (.ofMalformed pre.length m)) := by
  rw [readAt, decodeAt_malformed h]
  rfl

end Malformed

/-- **Without replacement, what is read is what is read up to the first malformed bytes.** -/
theorem readFrom_false (pre rest : Bytes) :
    readFrom false (pre ++ rest) pre.length
      = ((strictFrom pre.length rest).1,
          (strictFrom pre.length rest).2.map fun p => .text (.ofMalformed p.1 p.2)) := by
  induction rest using front_induction generalizing pre with
  | nil =>
    rw [readFrom_end (by simp), strictFrom]
    rfl
  | malformed lead rest m hdecode ih =>
    rw [readFrom_error (by simp) (readAt_malformed hdecode false pre), strictFrom, hdecode]
    rfl
  | encoded c rest ih =>
    have hpos := length_encodeCode_pos c
    have hrest := ih (pre ++ encodeCode c.toNat)
    rw [List.append_assoc, List.length_append] at hrest
    rw [readFrom_ok (by simp; omega) (readAt_encodeCode false c pre rest), hrest,
      strictFrom_encodeCode, chars_strictFrom_encodeCode]

/-- **With replacement, all of a text is read.** -/
theorem readFrom_true (pre rest : Bytes) :
    readFrom true (pre ++ rest) pre.length = (lenientFrom pre.length rest, none) := by
  induction rest using front_induction generalizing pre with
  | nil =>
    rw [readFrom_end (by simp), lenientFrom]
  | malformed lead rest m hdecode ih =>
    have hrest := ih (pre ++ [lead])
    rw [List.append_assoc, List.length_append] at hrest
    rw [readFrom_ok (by simp) (readAt_malformed hdecode true pre), lenientFrom_malformed _ hdecode]
    exact congrArg (fun r => ((pre.length, replacement) :: r.1, r.2)) hrest
  | encoded c rest ih =>
    have hpos := length_encodeCode_pos c
    have hrest := ih (pre ++ encodeCode c.toNat)
    rw [List.append_assoc, List.length_append] at hrest
    rw [readFrom_ok (by simp; omega) (readAt_encodeCode true c pre rest), hrest,
      lenientFrom_encodeCode]

/-! ## Without gaps -/

/--
Characters with their offsets stand one behind the other between two offsets. Each takes as many
bytes as is said for its offset and itself.
-/
def Consecutive (takes : Nat → Char → Nat → Prop) : Nat → List (Nat × Char) → Nat → Prop
  | start, [], stop => start = stop
  | start, (offset, c) :: chars, stop =>
    offset = start ∧ ∃ width, takes offset c width ∧ Consecutive takes (start + width) chars stop

namespace Consecutive

variable {takes : Nat → Char → Nat → Prop} {start stop : Nat} {chars : List (Nat × Char)}

theorem start_le (h : Consecutive takes start chars stop) : ∀ p ∈ chars, start ≤ p.1 := by
  induction chars generalizing start with
  | nil => simp
  | cons p chars ih =>
    obtain ⟨hp, width, -, hchars⟩ := h
    refine List.forall_mem_cons.2 ⟨Nat.le_of_eq hp.symm, fun q hq => ?_⟩
    exact Nat.le_of_add_right_le (ih hchars q hq)

/-- Where every character takes bytes, the offsets become greater. -/
theorem pairwise (hpos : ∀ offset c width, takes offset c width → 0 < width)
    (h : Consecutive takes start chars stop) : chars.Pairwise fun p q => p.1 < q.1 := by
  induction chars generalizing start with
  | nil => exact .nil
  | cons p chars ih =>
    obtain ⟨hp, width, htakes, hchars⟩ := h
    have hwidth := hpos _ _ _ htakes
    refine .cons (fun q hq => ?_) (ih hchars)
    have := hchars.start_le q hq
    omega

end Consecutive

/-- What is read up to the first malformed bytes takes as many bytes as its encoding has. -/
theorem consecutive_strictFrom (start : Nat) (bytes : Bytes) :
    Consecutive (fun _ c width => width = (encodeCode c.toNat).length) start
      (strictFrom start bytes).1
      (start + (encode ((strictFrom start bytes).1.map Prod.snd)).length) := by
  induction bytes using front_induction generalizing start with
  | nil =>
    rw [strictFrom]
    rfl
  | malformed lead rest m hdecode ih =>
    rw [strictFrom, hdecode]
    rfl
  | encoded c rest ih =>
    rw [chars_strictFrom_encodeCode, List.map_cons, encode_cons, List.length_append,
      ← Nat.add_assoc]
    exact ⟨rfl, _, rfl, ih _⟩

/--
What stands at an offset where malformed bytes are replaced: the character that is read there, or
U+FFFD for one byte.
-/
def Takes (text : Bytes) (offset : Nat) (c : Char) (width : Nat) : Prop :=
  decodeAt text offset = .ok (c, width) ∨
    (∃ m, decodeAt text offset = .error (.text (.ofMalformed offset m))) ∧
      c = replacement ∧ width = 1

theorem Takes.width_pos {text : Bytes} {offset width : Nat} {c : Char}
    (h : Takes text offset c width) : 0 < width := by
  rcases h with hread | ⟨-, -, rfl⟩
  · obtain ⟨pre, post, -, -, rfl⟩ := decodeAt_eq_ok_iff.1 hread
    exact length_encodeCode_pos c
  · exact Nat.one_pos

/-- With replacement, reading goes on to the end of the text without gaps. -/
theorem consecutive_lenientFrom (pre rest : Bytes) :
    Consecutive (Takes (pre ++ rest)) pre.length (lenientFrom pre.length rest)
      (pre ++ rest).length := by
  induction rest using front_induction generalizing pre with
  | nil =>
    rw [lenientFrom, List.append_nil]
    rfl
  | malformed lead rest m hdecode ih =>
    have hrest := ih (pre ++ [lead])
    rw [List.append_assoc, List.length_append] at hrest
    rw [lenientFrom_malformed _ hdecode]
    exact ⟨rfl, 1, Or.inr ⟨⟨m, decodeAt_malformed hdecode pre⟩, rfl, rfl⟩, hrest⟩
  | encoded c rest ih =>
    have hrest := ih (pre ++ encodeCode c.toNat)
    rw [List.append_assoc, List.length_append] at hrest
    rw [lenientFrom_encodeCode]
    exact ⟨rfl, _, Or.inl (decodeAt_encodeCode c pre rest), hrest⟩

/-! ## Up to the first malformed bytes -/

/-- A text is encoded character by character. -/
theorem flatMap_utf8EncodeChar (text : List Char) :
    text.flatMap String.utf8EncodeChar = encode text := by
  rw [funext utf8EncodeChar_eq, encode]

/--
**Strict reading brings the longest encoding at the front of a text.** The characters stand one
behind the other from the beginning to an offset, and are encoded there. Reading ends without a
fault if and only if this offset is the end of the text, which is so just if the text is an encoding,
and then of these characters only. Otherwise malformed bytes at this offset are the fault, and no
character is encoded there.
-/
theorem strictFrom_exact (bytes : Bytes) :
    let encoding (text : List Char) : Bytes := text.flatMap String.utf8EncodeChar
    let reading := readFrom false bytes 0
    let text := reading.1.map Prod.snd
    let q := (encoding text).length
    reading = ((strictFrom 0 bytes).1,
      (strictFrom 0 bytes).2.map fun p => .text (.ofMalformed p.1 p.2)) ∧
    Consecutive (fun _ c width => width = (String.utf8EncodeChar c).length) 0 reading.1 q ∧
    bytes.take q = encoding text ∧
    (∀ text', bytes = encoding text' ↔ q = bytes.length ∧ text' = text) ∧
    (reading.2 = none ∧ q = bytes.length ∨
      ∃ m span, reading.2 = some (.text ⟨.malformed m, span⟩) ∧ span.start = q ∧
        q < bytes.length ∧ ∀ c, ¬ String.utf8EncodeChar c <+: bytes.drop q) := by
  intro encoding reading text q
  have hreading : reading = ((strictFrom 0 bytes).1,
      (strictFrom 0 bytes).2.map fun p => .text (.ofMalformed p.1 p.2)) := readFrom_false [] bytes
  have hchars : reading.1 = (strictFrom 0 bytes).1 := congrArg Prod.fst hreading
  have hencoding (t : List Char) : encoding t = encode t := flatMap_utf8EncodeChar t
  obtain ⟨bad, hbad, hbytes, hfault⟩ := strictFrom_split 0 bytes
  rw [← hchars] at hbytes hfault
  have hq : q = (encode text).length := congrArg List.length (hencoding text)
  have hlength : bytes.length = q + bad.length := by
    rw [hq, ← List.length_append]
    exact congrArg List.length hbytes
  have hdrop : bytes.drop q = bad := by
    rw [hbytes, hq]
    exact List.drop_left
  simp only [hencoding, utf8EncodeChar_eq]
  refine ⟨hreading, ?_, ?_, fun text' => ?_, ?_⟩
  · have hconsecutive := consecutive_strictFrom 0 bytes
    rw [← hchars, Nat.zero_add] at hconsecutive
    rw [hq]
    exact hconsecutive
  · rw [hbytes, hq]
    exact List.take_left
  · constructor
    · intro htext'
      -- characters stand in front of nothing, and in front of bytes at which none stands
      have hends : encode text' ++ [] = encode text ++ bad := by
        rw [List.append_nil, ← htext']
        exact hbytes
      obtain ⟨rfl, rfl⟩ := encode_append_unreadable_inj (fun _ => rfl) hbad hends
      exact ⟨hlength.symm, rfl⟩
    · rintro ⟨hend, rfl⟩
      obtain rfl : bad = [] := List.length_eq_zero_iff.1 (by omega)
      rw [List.append_nil] at hbytes
      exact hbytes
  · rcases unreadable_cases hbad with rfl | ⟨m, hm⟩
    · refine Or.inl ⟨?_, hlength.symm⟩
      rw [hreading, hfault]
      rfl
    · obtain ⟨lead, rest, hlead, -⟩ := exists_of_frontFault hm
      refine Or.inr ⟨m, .ofLength q m.size, ?_, rfl, ?_, ?_⟩
      · rw [hreading, hfault, hm, hq, Nat.zero_add]
        rfl
      · rw [hlength, hlead, List.length_cons]
        omega
      · rintro c ⟨more, hmore⟩
        rw [hdrop] at hmore
        exact not_unreadable_encodeCode c more (hmore ▸ hbad)

/-! ## Behind malformed bytes -/

/-- **At every byte that is no continuation byte something is read.** -/
theorem exists_mem_lenientFrom {bytes : Bytes} {i : Nat} {b : UInt8} (hb : bytes[i]? = some b)
    (hlead : isContinuation b = false) (start : Nat) :
    ∃ c, (start + i, c) ∈ lenientFrom start bytes := by
  induction bytes using front_induction generalizing start i with
  | nil => cases hb
  | malformed lead rest m hdecode ih =>
    rw [lenientFrom_malformed _ hdecode]
    cases i with
    | zero => exact ⟨_, List.mem_cons_self⟩
    | succ i =>
      obtain ⟨c, hc⟩ := ih hb (start + 1)
      rw [Nat.add_assoc, Nat.add_comm 1 i] at hc
      exact ⟨c, List.mem_cons_of_mem _ hc⟩
  | encoded d rest ih =>
    rw [lenientFrom_encodeCode]
    rcases Nat.lt_or_ge i (encodeCode d.toNat).length with hinside | hbehind
    · -- all bytes of a character but the first are continuation bytes
      obtain ⟨lead, tail, he, -, htail⟩ := encodeCode_eq_cons d
      rw [List.getElem?_append_left hinside, he] at hb
      cases i with
      | zero => exact ⟨d, List.mem_cons_self⟩
      | succ i =>
        have := htail b (List.mem_of_getElem? hb)
        rw [hlead] at this
        cases this
    · rw [List.getElem?_append_right hbehind] at hb
      obtain ⟨c, hc⟩ := ih hb (start + (encodeCode d.toNat).length)
      rw [Nat.add_assoc, Nat.add_sub_cancel' hbehind] at hc
      exact ⟨c, List.mem_cons_of_mem _ hc⟩

/-- In an encoded text there is nothing to replace. -/
theorem strictFrom_encode (start : Nat) (text : List Char) :
    strictFrom start (encode text) = (lenientFrom start (encode text), none) := by
  induction text generalizing start with
  | nil =>
    rw [encode_nil, strictFrom, lenientFrom]
  | cons c text ih =>
    have hrest := ih (start + (encodeCode c.toNat).length)
    rw [encode_cons, lenientFrom_encodeCode]
    refine Prod.ext ?_ ?_
    · rw [chars_strictFrom_encodeCode, hrest]
    · rw [strictFrom_encodeCode, hrest]

/-- In an encoded text something is read just at the offsets of its characters. -/
theorem exists_mem_lenientFrom_encode_iff (start : Nat) (text : List Char) (n : Nat) :
    (∃ c, (n, c) ∈ lenientFrom start (encode text)) ↔
      ∃ place, place < text.length ∧ n = start + offset text place := by
  induction text generalizing start with
  | nil =>
    rw [encode_nil, lenientFrom]
    simp
  | cons d text ih =>
    have hoffset (place : Nat) : offset (d :: text) (place + 1)
        = (encodeCode d.toNat).length + offset text place := by
      simp [offset]
    rw [encode_cons, lenientFrom_encodeCode]
    constructor
    · rintro ⟨c, hc⟩
      rcases List.mem_cons.1 hc with hc | hc
      · exact ⟨0, Nat.succ_pos _, congrArg Prod.fst hc⟩
      · obtain ⟨place, hplace, rfl⟩ := (ih _).1 ⟨c, hc⟩
        exact ⟨place + 1, Nat.succ_lt_succ hplace, by rw [hoffset, Nat.add_assoc]⟩
    · rintro ⟨place, hplace, rfl⟩
      cases place with
      | zero => exact ⟨d, List.mem_cons_self⟩
      | succ place =>
        obtain ⟨c, hc⟩ := (ih (start + (encodeCode d.toNat).length)).2
          ⟨place, Nat.lt_of_succ_lt_succ hplace, by rw [hoffset, Nat.add_assoc]⟩
        exact ⟨c, List.mem_cons_of_mem _ hc⟩

/-- **The boundaries of an encoded text are its end and the offsets at which something is read.** -/
theorem isBoundary_encode_iff_mem (text : List Char) (position : Int) :
    isBoundary (encode text) position = true ↔
      (∃ (n : Nat) (c : Char), (n, c) ∈ lenientFrom 0 (encode text) ∧ position = n) ∨
        position = (encode text).length := by
  rw [isBoundary_encode_iff]
  constructor
  · rintro ⟨place, hplace, rfl⟩
    rcases Nat.eq_or_lt_of_le hplace with rfl | hlt
    · exact Or.inr (by rw [offset_length])
    · obtain ⟨c, hc⟩ := (exists_mem_lenientFrom_encode_iff 0 text _).2 ⟨place, hlt, rfl⟩
      rw [Nat.zero_add] at hc
      exact Or.inl ⟨_, c, hc, rfl⟩
  · rintro (⟨n, c, hc, rfl⟩ | rfl)
    · obtain ⟨place, hplace, rfl⟩ := (exists_mem_lenientFrom_encode_iff 0 text n).1 ⟨c, hc⟩
      exact ⟨place, Nat.le_of_lt hplace, by rw [Nat.zero_add]⟩
    · exact ⟨text.length, Nat.le_refl _, by rw [offset_length]⟩

/--
**Lenient reading comes through every text, and no malformed bytes hide what is behind them.** It
ends without a fault at the end of the text, and reads one thing behind the other: the character
that stands there, or U+FFFD for one byte where malformed bytes stand. The offsets become greater,
begin with the first byte, and are those of all bytes that are no continuation bytes, and maybe more.
An encoded text is read as if nothing were replaced, and then its boundaries are these offsets and
its end.
-/
theorem lenientFrom_resync (bytes : Bytes) :
    let chars := lenientFrom 0 bytes
    readFrom true bytes 0 = (chars, none) ∧
    Consecutive (Takes bytes) 0 chars bytes.length ∧
    chars.Pairwise (fun p q => p.1 < q.1) ∧
    (bytes ≠ [] → ∃ c more, chars = (0, c) :: more) ∧
    (∀ i b, bytes[i]? = some b → ¬ (0x80 ≤ b ∧ b ≤ 0xBF) → ∃ c, (i, c) ∈ chars) ∧
    ∀ text : List Char, bytes = text.flatMap String.utf8EncodeChar →
      strictFrom 0 bytes = (chars, none) ∧
      ∀ position : Int, isBoundary bytes position = true ↔
        (∃ (n : Nat) (c : Char), (n, c) ∈ chars ∧ position = n) ∨ position = bytes.length := by
  intro chars
  have hconsecutive : Consecutive (Takes bytes) 0 chars bytes.length :=
    consecutive_lenientFrom [] bytes
  refine ⟨readFrom_true [] bytes, hconsecutive,
    hconsecutive.pairwise fun _ _ _ h => h.width_pos, ?_, ?_, ?_⟩
  · intro hne
    cases hchars : chars with
    | nil =>
      rw [hchars] at hconsecutive
      exact absurd (List.length_eq_zero_iff.1 hconsecutive.symm) hne
    | cons p more =>
      obtain ⟨offset, c⟩ := p
      rw [hchars] at hconsecutive
      obtain ⟨rfl, -⟩ := hconsecutive
      exact ⟨c, more, rfl⟩
  · intro i b hb hlead
    have hlead' : isContinuation b = false := by
      simpa [isContinuation] using hlead
    have hmem := exists_mem_lenientFrom hb hlead' 0
    rwa [Nat.zero_add] at hmem
  · rintro text rfl
    simp only [chars, flatMap_utf8EncodeChar]
    exact ⟨strictFrom_encode 0 text, isBoundary_encode_iff_mem text⟩

/-- A longer character that breaks off hides neither the letter behind it nor the next character. -/
theorem lenientFrom_resync_brokenOff :
    let bytes : Bytes := [0xF0, 0x9F, 0x41, 0xC3, 0xA9]
    let valid : Bytes := [0x41, 0xC3, 0xA9]
    bytes[2]? = some 0x41 ∧ (∃ c, (2, c) ∈ lenientFrom 0 bytes) ∧
      lenientFrom 0 bytes = [(0, replacement), (1, replacement), (2, 'A'), (3, 'é')] ∧
      (∃ c more, lenientFrom 0 bytes = (0, c) :: more) ∧
      valid = ['A', 'é'].flatMap String.utf8EncodeChar ∧
      strictFrom 0 valid = (lenientFrom 0 valid, none) ∧
      (isBoundary valid 2 = true ↔
        (∃ (n : Nat) (c : Char), (n, c) ∈ lenientFrom 0 valid ∧ (2 : Int) = n) ∨ (2 : Int) = 3) := by
  intro bytes valid
  have hvalid : valid = ['A', 'é'].flatMap String.utf8EncodeChar := by decide
  have hletter : bytes[2]? = some 0x41 := rfl
  have hread : lenientFrom 0 bytes = [(0, replacement), (1, replacement), (2, 'A'), (3, 'é')] := by
    rw [lenientFrom_malformed 0 (m := .badContinuation 2 0x41) rfl,
      lenientFrom_malformed 1 (m := .badLead 0x9F) rfl]
    show _ :: _ :: lenientFrom 2 (encodeCode 'A'.toNat ++ (encodeCode 'é'.toNat ++ [])) = _
    rw [lenientFrom_encodeCode, lenientFrom_encodeCode, lenientFrom]
    rfl
  obtain ⟨-, -, -, hfirst, hlead, -⟩ := lenientFrom_resync bytes
  obtain ⟨hstrict, hboundary⟩ := (lenientFrom_resync valid).2.2.2.2.2 _ hvalid
  exact ⟨hletter, hlead 2 0x41 hletter (by decide), hread, hfirst (by decide), hvalid, hstrict,
    hboundary 2⟩

end Arith.Utf8
