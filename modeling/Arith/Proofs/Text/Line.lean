import Arith.Text.Blank

/-!
# Lines of a text

A text is cut into lines at its line feeds and at the carriage returns that no line feed follows
(`Line.split`). A line is a text without either of them, and the break that ends it: a line feed, a
carriage return, or both. Only the last line has no break.

The breaking characters are parameters, so that the same lines are those of bytes and those of
characters.
-/

namespace Arith

/-- A line of a text, and the break that ends it. -/
structure Line (α : Type) where
  text : List α
  ending : List α
  deriving DecidableEq, Repr

namespace Line

variable {α : Type} {lf cr a : α} {s t rest : List α}

/-- A line with its break. -/
def whole (l : Line α) : List α := l.text ++ l.ending

/-- A line with more text in front. -/
def prepend (s : List α) (l : Line α) : Line α := { l with text := s ++ l.text }

theorem prepend_prepend (l : Line α) : prepend s (prepend t l) = prepend (s ++ t) l := by
  simp [prepend]

/-- The three breaks. -/
def IsBreak (lf cr : α) (ending : List α) : Prop :=
  ending = [lf] ∨ ending = [cr] ∨ ending = [cr, lf]

theorem IsBreak.ne_nil {ending : List α} (h : IsBreak lf cr ending) : ending ≠ [] := by
  rcases h with rfl | rfl | rfl <;> exact List.cons_ne_nil _ _

/-- A character that breaks no line. -/
def Plain (lf cr a : α) : Prop := a ≠ lf ∧ a ≠ cr

/-- Characters that break a line are blank. -/
theorem plain_of_isBlank {c : Char} (h : isBlank c = false) : Plain '\n' '\r' c := by
  constructor
  · rintro rfl
    cases h
  · rintro rfl
    cases h

/-- Between two texts a break is torn apart. -/
def Torn (lf cr : α) (s t : List α) : Prop := s.getLast? = some cr ∧ t.head? = some lf

theorem not_torn_of_cons (h : ¬ Torn lf cr (a :: s) t) : ¬ Torn lf cr s t := by
  rintro ⟨hlast, hhead⟩
  refine h ⟨?_, hhead⟩
  rw [List.getLast?_cons, hlast]
  rfl

/-! ## Cutting a text -/

/-- A line ends with a line feed, or with a carriage return that no line feed follows. -/
def Ends (lf cr a : α) (rest : List α) : Prop := a = lf ∨ a = cr ∧ rest.head? ≠ some lf

section

variable [DecidableEq α]

instance : Decidable (Plain lf cr a) := inferInstanceAs (Decidable (_ ∧ _))

instance : Decidable (Ends lf cr a rest) := inferInstanceAs (Decidable (_ ∨ _))

/-- The lines of a text. A carriage return in front of a line feed belongs to the same break. -/
def split (lf cr : α) : List α → List (Line α)
  | [] => [⟨[], []⟩]
  | a :: rest =>
    if Ends lf cr a rest then ⟨[], [a]⟩ :: split lf cr rest
    else if a = cr then (split lf cr rest).modifyHead fun l => { l with ending := a :: l.ending }
    else (split lf cr rest).modifyHead (prepend [a])

@[simp] theorem split_nil : split lf cr [] = [⟨[], []⟩] := rfl

theorem split_ends (h : Ends lf cr a rest) :
    split lf cr (a :: rest) = ⟨[], [a]⟩ :: split lf cr rest := if_pos h

theorem split_pair (hne : cr ≠ lf) :
    split lf cr (cr :: lf :: rest) = ⟨[], [cr, lf]⟩ :: split lf cr rest := by
  have hcr : ¬ Ends lf cr cr (lf :: rest) := by
    rintro (h | ⟨-, h⟩)
    · exact hne h
    · exact h rfl
  rw [split, if_neg hcr, if_pos rfl, split_ends (Or.inl rfl)]
  rfl

theorem split_plain (h : Plain lf cr a) :
    split lf cr (a :: rest) = (split lf cr rest).modifyHead (prepend [a]) := by
  have hends : ¬ Ends lf cr a rest := by
    rintro (ha | ⟨ha, -⟩)
    · exact h.1 ha
    · exact h.2 ha
  rw [split, if_neg hends, if_neg h.2]

/-- A text is empty, or begins with the end of a line, with both breaking characters, or with a
character that breaks no line. -/
theorem split_induction {motive : List α → Prop} (hne : cr ≠ lf) (nil : motive [])
    (ends : ∀ a rest, Ends lf cr a rest → motive rest → motive (a :: rest))
    (pair : ∀ rest, motive rest → motive (cr :: lf :: rest))
    (plain : ∀ a rest, Plain lf cr a → motive rest → motive (a :: rest)) :
    ∀ s, motive s
  | [] => nil
  | a :: rest => by
    have hrest := split_induction hne nil ends pair plain rest
    by_cases hends : Ends lf cr a rest
    · exact ends a rest hends hrest
    by_cases hcr : a = cr
    · -- a carriage return that ends no line has a line feed behind it
      cases rest with
      | nil => exact absurd (Or.inr ⟨hcr, by simp⟩) hends
      | cons b rest =>
        by_cases hb : b = lf
        · rw [hcr, hb]
          exact pair rest (split_induction hne nil ends pair plain rest)
        · exact absurd (Or.inr ⟨hcr, by simpa using hb⟩) hends
    · exact plain a rest ⟨fun h => hends (Or.inl h), hcr⟩ hrest

/-- Characters that break no line are prepended to the first line. -/
theorem split_append_plain (hs : ∀ a ∈ s, Plain lf cr a) :
    split lf cr (s ++ t) = (split lf cr t).modifyHead (prepend s) := by
  induction s with
  | nil =>
    have hid : (prepend [] : Line α → Line α) = id := funext fun l => rfl
    rw [List.nil_append, hid, List.modifyHead_id, id]
  | cons a s ih =>
    obtain ⟨ha, hs⟩ := List.forall_mem_cons.1 hs
    have hcomp : (prepend [a] : Line α → Line α) ∘ prepend s = prepend (a :: s) :=
      funext fun l => prepend_prepend l
    rw [List.cons_append, split_plain ha, ih hs, List.modifyHead_modifyHead, hcomp]

/-- A line of other characters. -/
def map {β : Type} (f : α → β) (l : Line α) : Line β := ⟨l.text.map f, l.ending.map f⟩

/-- **A text is cut in the same places if it is written in other characters.** -/
theorem split_map {β : Type} [DecidableEq β] {f : α → β} (hf : Function.Injective f)
    (hne : cr ≠ lf) (s : List α) :
    split (f lf) (f cr) (s.map f) = (split lf cr s).map (map f) := by
  have hends {a : α} {rest : List α} (h : Ends lf cr a rest) :
      Ends (f lf) (f cr) (f a) (rest.map f) := by
    rcases h with rfl | ⟨rfl, hhead⟩
    · exact Or.inl rfl
    · refine Or.inr ⟨rfl, fun h => hhead ?_⟩
      rw [List.head?_map] at h
      obtain ⟨b, hb, heq⟩ := Option.map_eq_some_iff.1 h
      rw [hb, hf heq]
  induction s using split_induction hne with
  | nil => rfl
  | ends a rest h ih =>
    rw [List.map_cons, split_ends (hends h), split_ends h, ih]
    rfl
  | pair rest ih =>
    rw [List.map_cons, List.map_cons, split_pair (fun h => hne (hf h)), split_pair hne, ih]
    rfl
  | plain a rest h ih =>
    have hplain : Plain (f lf) (f cr) (f a) := ⟨fun h' => h.1 (hf h'), fun h' => h.2 (hf h')⟩
    rw [List.map_cons, split_plain hplain, split_plain h, ih]
    cases split lf cr rest <;> rfl

/-! ## What lines are -/

theorem exists_split_eq_cons (lf cr : α) (s : List α) : ∃ l ls, split lf cr s = l :: ls := by
  induction s with
  | nil => exact ⟨_, _, rfl⟩
  | cons a rest ih =>
    obtain ⟨l, ls, h⟩ := ih
    rw [split, h]
    split
    · exact ⟨_, _, rfl⟩
    · split <;> exact ⟨_, _, rfl⟩

/-- The first line of a text is empty if and only if nothing stands in front of its break. -/
theorem text_eq_nil_iff (hne : cr ≠ lf) {l : Line α} {ls : List (Line α)}
    (h : split lf cr s = l :: ls) : l.text = [] ↔ ∀ a ∈ s.head?, a = lf ∨ a = cr := by
  induction s using split_induction hne with
  | nil =>
    cases h
    simp
  | ends a rest hends _ =>
    rw [split_ends hends] at h
    cases h
    rcases hends with rfl | ⟨rfl, -⟩ <;> simp
  | pair rest _ =>
    rw [split_pair hne] at h
    cases h
    simp
  | plain a rest hplain _ =>
    obtain ⟨k, ks, hsplit⟩ := exists_split_eq_cons lf cr rest
    rw [split_plain hplain, hsplit] at h
    cases h
    simp [prepend, hplain.1, hplain.2]

/-- Nothing of a text is lost when it is cut. -/
theorem flatMap_whole_split (hne : cr ≠ lf) (s : List α) : (split lf cr s).flatMap whole = s := by
  induction s using split_induction hne with
  | nil => rfl
  | ends a rest h ih =>
    rw [split_ends h, List.flatMap_cons, ih]
    rfl
  | pair rest ih =>
    rw [split_pair hne, List.flatMap_cons, ih]
    rfl
  | plain a rest h ih =>
    obtain ⟨l, ls, hsplit⟩ := exists_split_eq_cons lf cr rest
    rw [hsplit] at ih
    rw [split_plain h, hsplit, ← ih]
    simp [whole, prepend]

/-- No line has a breaking character in its text. -/
theorem plain_of_mem_split (hne : cr ≠ lf) (s : List α) :
    ∀ l ∈ split lf cr s, ∀ a ∈ l.text, Plain lf cr a := by
  induction s using split_induction hne with
  | nil => simp
  | ends a rest h ih =>
    rw [split_ends h]
    exact List.forall_mem_cons.2 ⟨nofun, ih⟩
  | pair rest ih =>
    rw [split_pair hne]
    exact List.forall_mem_cons.2 ⟨nofun, ih⟩
  | plain a rest h ih =>
    obtain ⟨l, ls, hsplit⟩ := exists_split_eq_cons lf cr rest
    rw [hsplit] at ih
    obtain ⟨hl, hls⟩ := List.forall_mem_cons.1 ih
    rw [split_plain h, hsplit]
    exact List.forall_mem_cons.2 ⟨List.forall_mem_cons.2 ⟨h, hl⟩, hls⟩

/-- All lines but the last one end with a break. -/
theorem exists_split_eq_concat (hne : cr ≠ lf) (s : List α) :
    ∃ before last, split lf cr s = before ++ [⟨last, []⟩] ∧
      ∀ l ∈ before, IsBreak lf cr l.ending := by
  induction s using split_induction hne with
  | nil => exact ⟨[], [], rfl, nofun⟩
  | ends a rest h ih =>
    obtain ⟨before, last, hsplit, hbefore⟩ := ih
    refine ⟨⟨[], [a]⟩ :: before, last, by rw [split_ends h, hsplit]; rfl, ?_⟩
    refine List.forall_mem_cons.2 ⟨?_, hbefore⟩
    rcases h with rfl | ⟨rfl, -⟩
    · exact Or.inl rfl
    · exact Or.inr (Or.inl rfl)
  | pair rest ih =>
    obtain ⟨before, last, hsplit, hbefore⟩ := ih
    refine ⟨⟨[], [cr, lf]⟩ :: before, last, by rw [split_pair hne, hsplit]; rfl, ?_⟩
    exact List.forall_mem_cons.2 ⟨Or.inr (Or.inr rfl), hbefore⟩
  | plain a rest h ih =>
    obtain ⟨before, last, hsplit, hbefore⟩ := ih
    rw [split_plain h, hsplit]
    cases before with
    | nil => exact ⟨[], a :: last, rfl, nofun⟩
    | cons l before =>
      obtain ⟨hl, hbefore⟩ := List.forall_mem_cons.1 hbefore
      exact ⟨prepend [a] l :: before, last, rfl, List.forall_mem_cons.2 ⟨hl, hbefore⟩⟩

/-- Every line in front of another one ends with a break, and only the last line ends with none. -/
theorem isBreak_of_split (hne : cr ≠ lf) {before after : List (Line α)} {l : Line α}
    (h : split lf cr s = before ++ l :: after) :
    (∀ k ∈ before, IsBreak lf cr k.ending) ∧
      (IsBreak lf cr l.ending ∨ l.ending = [] ∧ after = []) := by
  obtain ⟨front, last, hsplit, hfront⟩ := exists_split_eq_concat hne s
  rw [h] at hsplit
  rcases List.append_eq_append_iff.1 hsplit with ⟨more, rfl, hmore⟩ | ⟨more, rfl, hmore⟩
  · refine ⟨fun k hk => hfront k (List.mem_append_left _ hk), ?_⟩
    cases more with
    | nil =>
      cases hmore
      exact Or.inr ⟨rfl, rfl⟩
    | cons k more =>
      obtain ⟨rfl, -⟩ := List.cons.inj hmore
      exact Or.inl (hfront l (by simp))
  · cases more with
    | nil =>
      cases hmore
      exact ⟨by simpa using hfront, Or.inr ⟨rfl, rfl⟩⟩
    | cons k more =>
      -- the last line would have another one behind it
      obtain ⟨-, hnil⟩ := List.cons.inj hmore
      exact absurd hnil.symm (by simp)

/-- **Two texts in a row are cut as each of them is**, and the last line of the first goes on with
the first line of the second, if no break is torn apart between them. -/
theorem split_append (hne : cr ≠ lf) (htorn : ¬ Torn lf cr s t)
    {before after : List (Line α)} {left : List α} {l : Line α}
    (hs : split lf cr s = before ++ [⟨left, []⟩]) (ht : split lf cr t = l :: after) :
    split lf cr (s ++ t) = before ++ prepend left l :: after := by
  induction s using split_induction hne generalizing before left with
  | nil =>
    have hnil : [] ++ [(⟨[], []⟩ : Line α)] = before ++ [⟨left, []⟩] := hs
    obtain ⟨rfl, hleft⟩ := List.append_inj' hnil rfl
    cases hleft
    exact ht
  | ends a rest h ih =>
    rw [split_ends h] at hs
    -- the line ends there in the joint text too
    have hends : Ends lf cr a (rest ++ t) := by
      rcases h with rfl | ⟨rfl, hhead⟩
      · exact Or.inl rfl
      · cases rest with
        | nil => exact Or.inr ⟨rfl, fun h => htorn ⟨rfl, h⟩⟩
        | cons b rest => exact Or.inr ⟨rfl, hhead⟩
    cases before with
    | nil => cases hs
    | cons first before =>
      obtain ⟨rfl, hrows⟩ := List.cons.inj hs
      rw [List.cons_append, split_ends hends, ih (not_torn_of_cons htorn) hrows, List.cons_append]
  | pair rest ih =>
    rw [split_pair hne] at hs
    cases before with
    | nil => cases hs
    | cons first before =>
      obtain ⟨rfl, hrows⟩ := List.cons.inj hs
      have hrest := not_torn_of_cons (not_torn_of_cons htorn)
      rw [List.cons_append, List.cons_append, split_pair hne, ih hrest hrows, List.cons_append]
  | plain a rest h ih =>
    obtain ⟨before', left', hsplit, -⟩ := exists_split_eq_concat hne rest
    rw [split_plain h, hsplit] at hs
    rw [List.cons_append, split_plain h, ih (not_torn_of_cons htorn) hsplit]
    cases before' with
    | nil =>
      have hnil : [] ++ [(⟨a :: left', []⟩ : Line α)] = before ++ [⟨left, []⟩] := hs
      obtain ⟨rfl, hleft⟩ := List.append_inj' hnil rfl
      cases hleft
      rfl
    | cons first before' =>
      have hs' : (prepend [a] first :: before') ++ [⟨left', []⟩] = before ++ [⟨left, []⟩] := hs
      obtain ⟨rfl, hleft⟩ := List.append_inj' hs' rfl
      cases hleft
      rfl

end

/-! ## Where breaks end -/

/-- The number of characters of some lines. -/
def width (ls : List (Line α)) : Nat := (ls.flatMap whole).length

/-- The offsets at which the breaks of some lines end, of which the first begins at an offset. -/
def stops (offset : Nat) : List (Line α) → List Nat
  | [] => []
  | l :: ls =>
    let stop := offset + l.whole.length
    if l.ending = [] then stops stop ls else stop :: stops stop ls

@[simp] theorem width_nil : width ([] : List (Line α)) = 0 := rfl

@[simp] theorem width_cons (l : Line α) (ls : List (Line α)) :
    width (l :: ls) = l.whole.length + width ls := by
  simp [width]

theorem width_append (ls ls' : List (Line α)) : width (ls ++ ls') = width ls + width ls' := by
  simp [width]

theorem length_whole (l : Line α) : l.whole.length = l.text.length + l.ending.length := by
  simp [whole]

theorem stops_append (offset : Nat) (before after : List (Line α)) :
    stops offset (before ++ after)
      = stops offset before ++ stops (offset + width before) after := by
  induction before generalizing offset with
  | nil => rfl
  | cons l before ih =>
    simp only [List.cons_append, stops, ih, width_cons, ← Nat.add_assoc]
    split <;> rfl

theorem length_stops {before : List (Line α)} (h : ∀ l ∈ before, IsBreak lf cr l.ending)
    (offset : Nat) : (stops offset before).length = before.length := by
  induction before generalizing offset with
  | nil => rfl
  | cons l before ih =>
    obtain ⟨hl, hbefore⟩ := List.forall_mem_cons.1 h
    simp only [stops, if_neg hl.ne_nil, List.length_cons, ih hbefore]

/-- The lines of a text are as long as the text. -/
theorem width_split [DecidableEq α] (hne : cr ≠ lf) (s : List α) :
    width (split lf cr s) = s.length := by
  rw [width, flatMap_whole_split hne]

/-- The breaks of some lines end behind the text of the first one and inside the lines. -/
theorem range_of_mem_stops {ls : List (Line α)} {offset stop : Nat} (h : stop ∈ stops offset ls) :
    (∀ l ∈ ls.head?, offset + l.text.length < stop) ∧ stop ≤ offset + width ls := by
  induction ls generalizing offset with
  | nil => cases h
  | cons l ls ih =>
    have hlength := l.length_whole
    rw [width_cons, List.head?_cons]
    simp only [Option.mem_some_iff, forall_eq']
    unfold stops at h
    dsimp only at h
    split at h
    next hnil =>
      obtain ⟨hlt, hle⟩ := ih h
      have : l.ending.length = 0 := by rw [hnil]; rfl
      cases ls with
      | nil => cases h
      | cons next ls =>
        have := hlt next rfl
        omega
    next hne =>
      have hpos := List.length_pos_iff.2 hne
      rcases List.mem_cons.1 h with rfl | h
      · omega
      · obtain ⟨hlt, hle⟩ := ih h
        cases ls with
        | nil => cases h
        | cons next ls =>
          have := hlt next rfl
          omega

/-- The last break of some lines ends where they end. -/
theorem getLast?_stops (before : List (Line α)) {l : Line α} (hl : IsBreak lf cr l.ending)
    (offset : Nat) :
    (stops offset (before ++ [l])).getLast? = some (offset + width (before ++ [l])) := by
  rw [stops_append]
  simp [stops, hl.ne_nil, width, Nat.add_assoc]

/-- More text in front moves all breaks. -/
theorem stops_prepend (offset : Nat) (s : List α) (ls : List (Line α)) :
    stops offset (ls.modifyHead (prepend s)) = stops (offset + s.length) ls := by
  cases ls with
  | nil => rfl
  | cons l ls =>
    simp [stops, prepend, whole, Nat.add_assoc]

/-! ## Which characters end a line -/

/-- At an offset stands the last character of a break. -/
def EndsAt (lf cr : α) (s : List α) (i : Nat) : Prop :=
  s[i]? = some lf ∨ s[i]? = some cr ∧ s[i + 1]? ≠ some lf

theorem endsAt_nil (i : Nat) : ¬ EndsAt lf cr [] i := by simp [EndsAt]

theorem endsAt_zero : EndsAt lf cr (a :: rest) 0 ↔ Ends lf cr a rest := by
  simp [EndsAt, Ends, List.head?_eq_getElem?]

/-- The first character of a text ends a line, or the end of a line is further behind. -/
theorem exists_endsAt_cons {P : Nat → Prop} :
    (∃ i, P i ∧ EndsAt lf cr (a :: rest) i)
      ↔ P 0 ∧ Ends lf cr a rest ∨ ∃ i, P (i + 1) ∧ EndsAt lf cr rest i := by
  constructor
  · rintro ⟨i, hp, hends⟩
    cases i with
    | zero => exact Or.inl ⟨hp, endsAt_zero.1 hends⟩
    | succ i => exact Or.inr ⟨i, hp, hends⟩
  · rintro (⟨hp, hends⟩ | ⟨i, hp, hends⟩)
    · exact ⟨0, hp, endsAt_zero.2 hends⟩
    · exact ⟨i + 1, hp, hends⟩

/-- **The breaks of a text end right behind the characters that end its lines.** -/
theorem mem_stops_split_iff [DecidableEq α] (hne : cr ≠ lf) {offset stop : Nat} :
    stop ∈ stops offset (split lf cr s) ↔ ∃ i, stop = offset + i + 1 ∧ EndsAt lf cr s i := by
  induction s using split_induction hne generalizing offset with
  | nil => simp [stops, endsAt_nil]
  | ends a rest h ih =>
    rw [split_ends h, exists_endsAt_cons]
    simp only [stops, List.cons_ne_nil, if_false, List.mem_cons, ih, whole, List.nil_append,
      List.length_singleton, h, and_true]
    simp only [Nat.add_zero, Nat.add_assoc, Nat.add_comm 1]
  | pair rest ih =>
    -- of the two characters the second one ends the line
    have hcr : ¬ Ends lf cr cr (lf :: rest) := by simp [Ends, hne]
    have hlf : Ends lf cr lf rest := Or.inl rfl
    rw [split_pair hne, exists_endsAt_cons, exists_endsAt_cons]
    simp only [stops, List.cons_ne_nil, if_false, List.mem_cons, ih, whole, List.nil_append,
      List.length_cons, List.length_nil, hcr, hlf, and_false, and_true, false_or]
    simp only [Nat.add_assoc, Nat.reduceAdd, Nat.add_comm 2]
  | plain a rest h ih =>
    have hends : ¬ Ends lf cr a rest := by simp [Ends, h.1, h.2]
    rw [split_plain h, stops_prepend, ih, exists_endsAt_cons]
    simp only [List.length_singleton, hends, and_false, false_or, Nat.add_assoc, Nat.add_comm 1]

/-- The breaks of some lines end one behind the other. -/
theorem pairwise_stops (offset : Nat) (ls : List (Line α)) :
    (stops offset ls).Pairwise (· < ·) := by
  induction ls generalizing offset with
  | nil => exact List.Pairwise.nil
  | cons l ls ih =>
    unfold stops
    dsimp only
    split
    · exact ih _
    · refine List.pairwise_cons.2 ⟨fun stop hstop => ?_, ih _⟩
      obtain ⟨hlt, -⟩ := range_of_mem_stops hstop
      cases ls with
      | nil => cases hstop
      | cons next ls =>
        have := hlt next rfl
        omega

end Line

end Arith
