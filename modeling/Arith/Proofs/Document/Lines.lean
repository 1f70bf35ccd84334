import Arith.Document
import Arith.Proofs.Text.Encoding
import Arith.Proofs.Text.Line

/-!
# The lines of a document

The line index of some bytes knows their lines: it holds the last offset of every break
(`breaks_ofBytes`), an offset is located in the line that it lies in (`locate_eq`), and the bytes of
a line are its text (`lineOf_eq`).

No byte of a longer character is a line feed or a carriage return. So the lines of an encoded text
are its encoded lines (`lines_encode`), and malformed bytes do not hide a break.
-/

namespace Arith

/-! ## The lines of bytes -/

namespace Document

open Utf8

/-- The breaking bytes are two. -/
theorem return_ne_lineFeed : (0x0D : UInt8) ≠ 0x0A := by decide

/-- The lines of a text. -/
def lines (content : Bytes) : List (Line UInt8) := Line.split 0x0A 0x0D content

/-- All bytes of a character that is not of ASCII are above ASCII. -/
theorem le_of_mem_encodeCode {c : Char} (h : 0x80 ≤ c.toNat) {b : UInt8}
    (hb : b ∈ encodeCode c.toNat) : 0x80 ≤ b.toNat := by
  obtain ⟨lead, n, ns, he, hwidth, -, -⟩ := exists_continuations h
  rw [he] at hb
  rcases List.mem_cons.1 hb with rfl | hb
  · have := sequenceWidth_cases b
    omega
  · obtain ⟨k, -, rfl⟩ := List.mem_map.1 hb
    rw [toNat_continuation]
    exact Nat.le_add_right _ _

/-- No byte above ASCII breaks a line. -/
theorem plain_of_le {b : UInt8} (h : 0x80 ≤ b.toNat) : Line.Plain 0x0A 0x0D b := by
  constructor
  · rintro rfl
    exact absurd h (by decide)
  · rintro rfl
    exact absurd h (by decide)

/-- Only the breaking characters have breaking bytes. -/
theorem plain_of_mem_encodeCode {c : Char} (h : Line.Plain '\n' '\r' c) {b : UInt8}
    (hb : b ∈ encodeCode c.toNat) : Line.Plain 0x0A 0x0D b := by
  rcases Nat.lt_or_ge c.toNat 0x80 with hascii | hlong
  · rw [encodeCode_one hascii, List.mem_singleton] at hb
    have hbyte : b.toNat = c.toNat := by
      rw [hb]
      refine UInt8.toNat_ofNat_of_lt' ?_
      have : UInt8.size = 256 := rfl
      omega
    constructor
    · rintro rfl
      exact h.1 (Char.toNat_inj.1 hbyte.symm)
    · rintro rfl
      exact h.2 (Char.toNat_inj.1 hbyte.symm)
  · exact plain_of_le (le_of_mem_encodeCode hlong hb)

theorem plain_of_mem_encode {text : List Char} (h : ∀ c ∈ text, Line.Plain '\n' '\r' c) :
    ∀ b ∈ encode text, Line.Plain 0x0A 0x0D b := by
  intro b hb
  obtain ⟨c, hc, hb⟩ := List.mem_flatMap.1 hb
  exact plain_of_mem_encodeCode (h c hc) hb

/-! ## The breaks of a text -/

/-- A line feed is read where its byte stands. -/
theorem head?_of_lenientFrom {offset o : Nat} {bytes : Bytes} {more : List (Nat × Char)}
    (h : lenientFrom offset bytes = (o, '\n') :: more) : bytes.head? = some 0x0A := by
  rcases front_cases bytes with rfl | ⟨m, hm⟩ | ⟨c, rest, rfl⟩
  · rw [lenientFrom] at h
    cases h
  · obtain ⟨lead, rest, rfl, hdecode⟩ := exists_of_frontFault hm
    rw [lenientFrom_malformed offset hdecode] at h
    cases h
  · rw [lenientFrom_encodeCode] at h
    obtain ⟨hc, -⟩ := List.cons.inj h
    obtain ⟨-, rfl⟩ := Prod.mk.inj hc
    rfl

/-- The lead byte of malformed bytes breaks no line. -/
theorem plain_of_decodeHead_error {lead : UInt8} {rest : Bytes} {m : Malformed}
    (h : decodeHead lead rest = .error m) : Line.Plain 0x0A 0x0D lead := by
  constructor
  · rintro rfl
    rw [decodeHead_ascii (by decide)] at h
    cases h
  · rintro rfl
    rw [decodeHead_ascii (by decide)] at h
    cases h

theorem breaksOf_plain {offset : Nat} {c : Char} (h : Line.Plain '\n' '\r' c)
    (rest : List (Nat × Char)) :
    LineIndex.breaksOf ((offset, c) :: rest) = LineIndex.breaksOf rest := by
  rw [LineIndex.breaksOf.eq_def]
  simp only [if_neg h.1, if_neg h.2]

theorem breaksOf_lineFeed (offset : Nat) (rest : List (Nat × Char)) :
    LineIndex.breaksOf ((offset, '\n') :: rest) = offset :: LineIndex.breaksOf rest := by
  rw [LineIndex.breaksOf.eq_def]
  rfl

theorem breaksOf_pair (offset o : Nat) (rest : List (Nat × Char)) :
    LineIndex.breaksOf ((offset, '\r') :: (o, '\n') :: rest) = o :: LineIndex.breaksOf rest := by
  rw [LineIndex.breaksOf.eq_def]
  exact breaksOf_lineFeed o rest

theorem breaksOf_return {offset : Nat} {rest : List (Nat × Char)}
    (h : ∀ o more, rest ≠ (o, '\n') :: more) :
    LineIndex.breaksOf ((offset, '\r') :: rest) = offset :: LineIndex.breaksOf rest := by
  rw [LineIndex.breaksOf.eq_def]
  dsimp only
  rw [if_neg (by decide), if_pos rfl]
  split
  next o more => exact absurd rfl (h o more)
  next => rfl

/-- **The breaks that are found among the characters are those of the lines.** A break stands in
front of the offset at which it ends. -/
theorem breaksOf_lenientFrom (offset : Nat) (content : Bytes) :
    LineIndex.breaksOf (lenientFrom offset content)
      = (Line.stops offset (lines content)).map (· - 1) := by
  induction hn : content.length using Nat.strongRecOn generalizing offset content with
  | ind n ih =>
    subst hn
    rcases front_cases content with rfl | ⟨m, hm⟩ | ⟨c, rest, rfl⟩
    · rw [lenientFrom]
      rfl
    · obtain ⟨lead, rest, rfl, hdecode⟩ := exists_of_frontFault hm
      rw [lenientFrom_malformed offset hdecode, breaksOf_plain (by decide),
        ih rest.length (Nat.lt_succ_self _) _ _ rfl, lines, lines,
        Line.split_plain (plain_of_decodeHead_error hdecode), Line.stops_prepend]
      rfl
    · rw [lenientFrom_encodeCode]
      have hpos := length_encodeCode_pos c
      have hrest := ih rest.length (by rw [List.length_append]; omega)
      by_cases hlf : c = '\n'
      · subst hlf
        show LineIndex.breaksOf ((offset, '\n') :: lenientFrom (offset + 1) rest)
          = (Line.stops offset (Line.split 0x0A 0x0D (0x0A :: rest))).map _
        rw [breaksOf_lineFeed, hrest _ _ rfl, Line.split_ends (Or.inl rfl)]
        rfl
      by_cases hcr : c = '\r'
      · subst hcr
        show LineIndex.breaksOf ((offset, '\r') :: lenientFrom (offset + 1) rest)
          = (Line.stops offset (Line.split 0x0A 0x0D (0x0D :: rest))).map _
        by_cases hhead : rest.head? = some 0x0A
        · -- both characters make one break, which stands at the second one
          obtain ⟨rest, rfl⟩ : ∃ rest', rest = 0x0A :: rest' := by
            cases rest with
            | nil => cases hhead
            | cons b rest => cases hhead; exact ⟨rest, rfl⟩
          have hlf : lenientFrom (offset + 1) (0x0A :: rest)
              = (offset + 1, '\n') :: lenientFrom (offset + 2) rest :=
            lenientFrom_encodeCode (offset + 1) '\n' rest
          have hless : rest.length < (encodeCode '\r'.toNat ++ 0x0A :: rest).length := by
            rw [List.length_append, List.length_cons]
            omega
          rw [hlf, breaksOf_pair, Line.split_pair return_ne_lineFeed, ih rest.length hless _ _ rfl]
          rfl
        · have hreturn : ∀ o more, lenientFrom (offset + 1) rest ≠ (o, '\n') :: more :=
            fun o more h => hhead (head?_of_lenientFrom h)
          rw [breaksOf_return hreturn, hrest _ _ rfl, Line.split_ends (Or.inr ⟨rfl, hhead⟩)]
          rfl
      · have hplain : Line.Plain '\n' '\r' c := ⟨hlf, hcr⟩
        rw [breaksOf_plain hplain, hrest _ _ rfl, lines, lines,
          Line.split_append_plain fun b hb => plain_of_mem_encodeCode hplain hb,
          Line.stops_prepend]

/-- The line index of a text holds the last offset of every break. -/
theorem breaks_ofBytes (content : Bytes) :
    (LineIndex.ofBytes content).breaks
      = ((Line.stops 0 (lines content)).map fun stop => ((stop - 1 : Nat) : Int)).toArray := by
  unfold LineIndex.ofBytes
  dsimp only
  rw [breaksOf_lenientFrom, List.map_map]
  rfl

/-! ## A line among others -/

/-- A place of a table is found if just the entries in front of it are smaller. -/
theorem lowerBound_eq {table : Array Int} {bound : Int} {low high place : Nat}
    (hlow : low ≤ place) (hhigh : place ≤ high) (hsize : high ≤ table.size)
    (hfront : ∀ i entry, i < place → table[i]? = some entry → entry < bound)
    (hback : ∀ i entry, place ≤ i → table[i]? = some entry → bound ≤ entry) :
    LineIndex.lowerBound table bound low high = place := by
  fun_induction LineIndex.lowerBound table bound low high with
  | case1 low high hlt middle hnone =>
    rw [Array.getElem?_eq_none_iff] at hnone
    omega
  | case2 low high hlt middle entry hfound hsmall ih =>
    refine ih ?_ hhigh hsize
    rcases Nat.lt_or_ge middle place with h | h
    · exact h
    · have := hback middle entry h hfound
      omega
  | case3 low high hlt middle entry hfound hsmall ih =>
    refine ih hlow ?_ (by omega)
    rcases Nat.lt_or_ge middle place with h | h
    · have := hfront middle entry h hfound
      omega
    · exact h
  | case4 low high hge => omega

/-- In a table of smaller numbers and then others, the first of the others is found. -/
theorem lowerBound_append {front back : List Int} {bound : Int} (hfront : ∀ n ∈ front, n < bound)
    (hback : ∀ n ∈ back, bound ≤ n) :
    LineIndex.lowerBound (front ++ back).toArray bound 0 (front ++ back).toArray.size
      = front.length := by
  refine lowerBound_eq (Nat.zero_le _) (by simp) (Nat.le_refl _) ?_ ?_
  · intro i entry hi hentry
    rw [List.getElem?_toArray, List.getElem?_append_left hi] at hentry
    exact hfront entry (List.mem_of_getElem? hentry)
  · intro i entry hi hentry
    rw [List.getElem?_toArray, List.getElem?_append_right hi] at hentry
    exact hback entry (List.mem_of_getElem? hentry)

variable {content : Bytes} {before after : List (Line UInt8)} {l : Line UInt8} {o : Nat}

theorem isBreak_of_lines (h : lines content = before ++ l :: after) :
    (∀ k ∈ before, Line.IsBreak 0x0A 0x0D k.ending) ∧
      (Line.IsBreak 0x0A 0x0D l.ending ∨ l.ending = [] ∧ after = []) :=
  Line.isBreak_of_split return_ne_lineFeed h

theorem plain_of_lines (h : lines content = before ++ l :: after) :
    ∀ b ∈ l.text, Line.Plain 0x0A 0x0D b :=
  Line.plain_of_mem_split return_ne_lineFeed content l (by rw [← lines, h]; simp)

/-- A text is the lines before a line, the line and the lines behind it. -/
theorem eq_of_lines (h : lines content = before ++ l :: after) :
    content = before.flatMap Line.whole ++ (l.whole ++ after.flatMap Line.whole) := by
  have hcontent := Line.flatMap_whole_split return_ne_lineFeed content
  rw [← lines, h, List.flatMap_append, List.flatMap_cons] at hcontent
  exact hcontent.symm

/-- A text ends in its last line. -/
theorem length_of_lines {text : Bytes} (h : lines content = before ++ [⟨text, []⟩]) :
    content.length = Line.width before + text.length := by
  rw [← Line.width_split return_ne_lineFeed content, ← lines, h, Line.width_append, Line.width_cons,
    Line.width_nil, Line.length_whole]
  rfl

/-- An offset in a line is behind the breaks in front of the line, and at no later one. -/
theorem stops_of_lines (h : lines content = before ++ l :: after) (hlow : Line.width before ≤ o)
    (hhigh : o ≤ Line.width before + l.text.length) :
    ∃ front back, Line.stops 0 (lines content) = front ++ back ∧ front.length = before.length ∧
      (∀ stop ∈ front, 0 < stop ∧ stop ≤ o) ∧ ∀ stop ∈ back, o < stop := by
  refine ⟨Line.stops 0 before, Line.stops (0 + Line.width before) (l :: after), ?_, ?_, ?_, ?_⟩
  · rw [h, Line.stops_append]
  · exact Line.length_stops (isBreak_of_lines h).1 0
  · intro stop hstop
    obtain ⟨hlt, hle⟩ := Line.range_of_mem_stops hstop
    refine ⟨?_, by omega⟩
    cases before with
    | nil => cases hstop
    | cons k before =>
      have := hlt k rfl
      omega
  · intro stop hstop
    have := (Line.range_of_mem_stops hstop).1 l rfl
    omega

/-- So many breaks end at an offset or in front of it as there are lines in front of its line. -/
theorem countP_stops (h : lines content = before ++ l :: after) (hlow : Line.width before ≤ o)
    (hhigh : o ≤ Line.width before + l.text.length) :
    (Line.stops 0 (lines content)).countP (· ≤ o) = before.length := by
  obtain ⟨front, back, hstops, hlength, hfront, hback⟩ := stops_of_lines h hlow hhigh
  have hall : front.countP (· ≤ o) = front.length :=
    List.countP_eq_length.2 fun stop hstop => decide_eq_true (hfront stop hstop).2
  have hnone : back.countP (· ≤ o) = 0 :=
    List.countP_eq_zero.2 fun stop hstop => by simpa using hback stop hstop
  rw [hstops, List.countP_append, hall, hnone, hlength]
  rfl

/-- A line begins where the lines in front of it end. -/
theorem startOf_eq (h : lines content = before ++ l :: after) :
    (LineIndex.ofBytes content).startOf before.length = Line.width before := by
  rcases List.eq_nil_or_concat before with rfl | ⟨front, k, rfl⟩
  · rfl
  rw [List.concat_eq_append] at h ⊢
  obtain ⟨hbreaks, -⟩ := isBreak_of_lines h
  have hk : Line.IsBreak 0x0A 0x0D k.ending := hbreaks k (by simp)
  have hlast := Line.getLast?_stops front hk 0
  have hlength := Line.length_stops hbreaks 0
  have hpos : 0 < k.whole.length := by
    have := List.length_pos_iff.2 hk.ne_nil
    rw [Line.length_whole]
    omega
  rw [List.getLast?_eq_getElem?, hlength, List.length_append, List.length_singleton,
    Nat.add_sub_cancel, Nat.zero_add] at hlast
  have hbreak : (LineIndex.ofBytes content).breaks[front.length]?
      = some ((Line.width (front ++ [k]) - 1 : Nat) : Int) := by
    rw [breaks_ofBytes, List.getElem?_toArray, List.getElem?_map, h, Line.stops_append,
      List.getElem?_append_left (by rw [hlength]; simp), hlast]
    rfl
  have hwidth : 0 < Line.width (front ++ [k]) := by
    rw [Line.width_append, Line.width_cons]
    omega
  rw [List.length_append, List.length_singleton, LineIndex.startOf, Array.getD_eq_getD_getElem?,
    hbreak, Option.getD_some]
  omega

/-- **An offset in a line is located there.** -/
theorem locate_eq (h : lines content = before ++ l :: after) (hlow : Line.width before ≤ o)
    (hhigh : o ≤ Line.width before + l.text.length) :
    (LineIndex.ofBytes content).locate o = (before.length, o - Line.width before) := by
  obtain ⟨front, back, hstops, hlength, hfront, hback⟩ := stops_of_lines h hlow hhigh
  have hline : LineIndex.lowerBound (LineIndex.ofBytes content).breaks o 0
      (LineIndex.ofBytes content).breaks.size = before.length := by
    rw [breaks_ofBytes, hstops, List.map_append, lowerBound_append, List.length_map, hlength]
    · intro n hn
      obtain ⟨stop, hstop, rfl⟩ := List.mem_map.1 hn
      have := hfront stop hstop
      omega
    · intro n hn
      obtain ⟨stop, hstop, rfl⟩ := List.mem_map.1 hn
      have := hback stop hstop
      omega
  unfold LineIndex.locate
  dsimp only
  rw [hline, startOf_eq h]
  refine congrArg (before.length, ·) ?_
  omega

/-- No offset that is counted from the beginning is refused. -/
theorem locate?_natCast (index : LineIndex) (offset : Nat) :
    index.locate? offset = .ok (index.locate offset) := by
  rw [LineIndex.locate?, if_neg (by omega), Int.toNat_natCast]

theorem lineStart_eq (h : lines content = before ++ l :: after) :
    (LineIndex.ofBytes content).lineStart before.length = .ok (Line.width before : Int) := by
  have hsize : before.length ≤ (LineIndex.ofBytes content).breaks.size := by
    have hlength := Line.length_stops (isBreak_of_lines h).1 0
    rw [breaks_ofBytes, h, Line.stops_append]
    simp [hlength]
  unfold LineIndex.lineStart LineIndex.lineCount
  rw [if_pos (by omega), Int.toNat_natCast, startOf_eq h]

/-! ## The bytes of a line -/

/-- Just the breaking bytes at the end of a text are cut off. -/
theorem trimBreaks_append {text ending : Bytes} (htext : ∀ b ∈ text, Line.Plain 0x0A 0x0D b)
    (hending : ∀ b ∈ ending, isBreakByte b = true) : trimBreaks (text ++ ending) = text := by
  have hplain : text.reverse.dropWhile isBreakByte = text.reverse := by
    cases hreverse : text.reverse with
    | nil => rfl
    | cons b more =>
      obtain ⟨hlf, hcr⟩ := htext b (List.mem_reverse.1 (by rw [hreverse]; exact List.mem_cons_self))
      exact List.dropWhile_cons_of_neg (by simp [isBreakByte, hlf, hcr])
  rw [trimBreaks, List.reverse_append, List.dropWhile_append_of_pos, hplain, List.reverse_reverse]
  intro b hb
  exact hending b (List.mem_reverse.1 hb)

/-- The last byte of a break stands at the offset that the index holds; the others go before it. -/
theorem exists_break_of_lines (h : lines content = before ++ l :: after) :
    ∃ ending more, l.ending = ending ++ more ∧ (∀ b ∈ ending, isBreakByte b = true) ∧
      (LineIndex.ofBytes content).breaks.getD before.length content.length
        = (Line.width before + (l.text ++ ending).length : Nat) := by
  obtain ⟨hbreaks, hl⟩ := isBreak_of_lines h
  have hlength := Line.length_stops hbreaks 0
  rw [breaks_ofBytes, h, Line.stops_append, List.map_append, Array.getD_eq_getD_getElem?,
    List.getElem?_toArray, List.getElem?_append_right (by simp [hlength]), List.length_map, hlength,
    Nat.sub_self, Nat.zero_add]
  rcases hl with hbreak | ⟨hnil, rfl⟩
  · have hstops : Line.stops (Line.width before) (l :: after)
        = (Line.width before + l.whole.length)
          :: Line.stops (Line.width before + l.whole.length) after := if_neg hbreak.ne_nil
    have hwhole := l.length_whole
    rw [hstops, List.map_cons, List.getElem?_cons_zero, Option.getD_some]
    rcases hbreak with hending | hending | hending
    · refine ⟨[], [0x0A], hending, nofun, ?_⟩
      rw [hending, List.length_singleton] at hwhole
      rw [hwhole, List.append_nil]
      rfl
    · refine ⟨[], [0x0D], hending, nofun, ?_⟩
      rw [hending, List.length_singleton] at hwhole
      rw [hwhole, List.append_nil]
      rfl
    · have hreturn : ∀ b ∈ [(0x0D : UInt8)], isBreakByte b = true := by
        intro b hb
        rw [List.mem_singleton.1 hb]
        rfl
      refine ⟨[0x0D], [0x0A], hending, hreturn, ?_⟩
      rw [hending] at hwhole
      rw [hwhole, List.length_append]
      rfl
  · -- the last line goes on to the end of the text
    refine ⟨[], [], hnil, nofun, ?_⟩
    have hstops : Line.stops (Line.width before) [l] = [] := if_pos hnil
    have hcontent := congrArg List.length (eq_of_lines h)
    rw [List.length_append, List.length_append, Line.length_whole, hnil] at hcontent
    rw [hstops, List.append_nil, hcontent]
    rfl

/-- The bytes of a line up to the offset that the index holds for its break. -/
def untrimmed (content : Bytes) (index : LineIndex) (line : Nat) : Bytes :=
  (content.take (index.breaks.getD line content.length).toNat).drop (index.startOf line).toNat

/-- Behind the text of a line, only a part of its break is still there. -/
theorem untrimmed_eq (h : lines content = before ++ l :: after) :
    ∃ cut more, l.ending = cut ++ more ∧ (∀ b ∈ cut, isBreakByte b = true) ∧
      untrimmed content (LineIndex.ofBytes content) before.length = l.text ++ cut := by
  obtain ⟨cut, more, hending, hbytes, hstop⟩ := exists_break_of_lines h
  have hcontent : content = before.flatMap Line.whole
      ++ ((l.text ++ cut) ++ (more ++ after.flatMap Line.whole)) := by
    rw [eq_of_lines h, Line.whole, hending]
    simp only [List.append_assoc]
  have hslice (pre mid post : Bytes) :
      ((pre ++ (mid ++ post)).take (pre.length + mid.length)).drop pre.length = mid := by
    rw [← List.length_append, ← List.append_assoc, List.take_left, List.drop_left]
  refine ⟨cut, more, hending, hbytes, ?_⟩
  unfold untrimmed
  rw [hstop, startOf_eq h, Int.toNat_natCast, Int.toNat_natCast, hcontent, Line.width, hslice]

/-- **The bytes of a line are its text.** -/
theorem lineOf_eq (h : lines content = before ++ l :: after) :
    lineOf content (LineIndex.ofBytes content) before.length = l.text := by
  obtain ⟨cut, -, -, hbytes, huntrimmed⟩ := untrimmed_eq h
  have htrim : lineOf content (LineIndex.ofBytes content) before.length
      = trimBreaks (untrimmed content (LineIndex.ofBytes content) before.length) := rfl
  rw [htrim, huntrimmed, trimBreaks_append (plain_of_lines h) hbytes]

/-- The line of an offset is found with its bytes. -/
theorem lineText_eq (h : lines content = before ++ l :: after) (name : String) :
    ((lineText before.length { name, content }).1) = .ok l.text := by
  let index := LineIndex.ofBytes content
  have hindex : ({ name, content } : Document).lineIndex
      = (index, { name, content, index := ⟨index⟩ }) := rfl
  unfold lineText
  rw [hindex]
  dsimp only
  rw [lineStart_eq h]
  exact congrArg Except.ok (lineOf_eq h)

/-! ## Encoded texts -/

/-- Only a line feed begins with the byte of one. -/
theorem head?_of_encode {text : List Char} (h : (encode text).head? = some 0x0A) :
    text.head? = some '\n' := by
  cases text with
  | nil => cases h
  | cons c text =>
    obtain ⟨lead, tail, he, -⟩ := decodeHead_encodeCode c []
    rw [encode_cons, he, List.cons_append, List.head?_cons, Option.some.injEq] at h
    subst h
    by_cases hlf : c = '\n'
    · rw [hlf, List.head?_cons]
    by_cases hcr : c = '\r'
    · subst hcr
      cases he
    · exact absurd rfl (plain_of_mem_encodeCode ⟨hlf, hcr⟩ (he ▸ List.mem_cons_self)).1

/-- A line of a text, encoded. -/
def encodeLine (l : Line Char) : Line UInt8 := ⟨encode l.text, encode l.ending⟩

/-- **The lines of an encoded text are its encoded lines.** -/
theorem lines_encode (text : List Char) :
    lines (encode text) = (Line.split '\n' '\r' text).map encodeLine := by
  induction text using Line.split_induction (show '\r' ≠ '\n' by decide) with
  | nil => rfl
  | ends c rest h ih =>
    rw [Line.split_ends h, List.map_cons, ← ih, encode_cons]
    rcases h with rfl | ⟨rfl, hhead⟩
    · exact Line.split_ends (Or.inl rfl)
    · exact Line.split_ends (Or.inr ⟨rfl, fun h => hhead (head?_of_encode h)⟩)
  | pair rest ih =>
    rw [Line.split_pair (by decide), List.map_cons, ← ih]
    exact Line.split_pair (by decide)
  | plain c rest h ih =>
    obtain ⟨l, ls, hsplit⟩ := Line.exists_split_eq_cons '\n' '\r' rest
    rw [Line.split_plain h, encode_cons, lines,
      Line.split_append_plain fun b hb => plain_of_mem_encodeCode h hb, ← lines, ih, hsplit]
    simp [encodeLine, Line.prepend, encode]

/-- Only a carriage return ends with the byte of one. -/
theorem getLast?_of_encode {text : List Char} (h : (encode text).getLast? = some 0x0D) :
    text.getLast? = some '\r' := by
  rcases List.eq_nil_or_concat text with rfl | ⟨front, c, rfl⟩
  · cases h
  · have hne : encodeCode c.toNat ≠ [] := List.ne_nil_of_length_pos (length_encodeCode_pos c)
    rw [List.concat_eq_append] at h ⊢
    rw [encode_append, encode_cons, encode_nil, List.append_nil, List.getLast?_append,
      List.getLast?_eq_some_getLast hne, Option.some_or] at h
    have hmem : 0x0D ∈ encodeCode c.toNat := Option.some.inj h ▸ List.getLast_mem hne
    rw [List.getLast?_concat]
    by_cases hcr : c = '\r'
    · rw [hcr]
    by_cases hlf : c = '\n'
    · subst hlf
      cases h
    · exact absurd rfl (plain_of_mem_encodeCode ⟨hlf, hcr⟩ hmem).2

/-- The line behind a text goes on where the last line of the text ends, if no break is torn apart
between them. -/
theorem lines_of_text {source tail : Bytes} {before shown : List Char}
    {front : List (Line Char)} {l : Line UInt8} {below : List (Line UInt8)}
    (hsource : source = encode before ++ tail)
    (htorn : before.getLast? = some '\r' → tail.head? ≠ some 0x0A)
    (hfront : Line.split '\n' '\r' before = front ++ [⟨shown, []⟩]) (hl : lines tail = l :: below) :
    lines source = front.map encodeLine ++ Line.prepend (encode shown) l :: below ∧
      (encode before).length = Line.width (front.map encodeLine) + (encode shown).length := by
  have hbefore : lines (encode before) = front.map encodeLine ++ [⟨encode shown, []⟩] := by
    rw [lines_encode, hfront, List.map_append]
    rfl
  refine ⟨?_, length_of_lines hbefore⟩
  rw [hsource]
  refine Line.split_append return_ne_lineFeed ?_ hbefore hl
  rintro ⟨hlast, hhead⟩
  exact htorn (getLast?_of_encode hlast) hhead

/-- **A place behind a text is behind the last line of the text**, if it is not inside a break. -/
theorem exists_lines_of_text {source tail : Bytes} {before : List Char}
    (hsource : source = encode before ++ tail)
    (htorn : before.getLast? = some '\r' → tail.head? ≠ some 0x0A) :
    ∃ (above below : List (Line UInt8)) (shown : List Char) (l : Line UInt8),
      lines tail = l :: below ∧ lines source = above ++ Line.prepend (encode shown) l :: below ∧
      (encode before).length = Line.width above + (encode shown).length := by
  obtain ⟨front, shown, hfront, -⟩ :=
    Line.exists_split_eq_concat (show '\r' ≠ '\n' by decide) before
  obtain ⟨l, below, hl⟩ := Line.exists_split_eq_cons 0x0A 0x0D tail
  exact ⟨front.map encodeLine, below, shown, l, hl, lines_of_text hsource htorn hfront hl⟩

end Document

end Arith
