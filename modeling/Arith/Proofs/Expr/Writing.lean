import Arith.Proofs.Expr.Items

/-!
# Operations on one writer

A writer can be asked for several things one after the other, and its layout can be changed in
between. It refuses to close a list just if none is open, and then it goes on as if it had not been
asked. What it writes are the items of all that it does not refuse, in order (`trace_items`).

* `items_perform`, `nests_perform` — what one operation writes
* `items_trace`, `nests_trace` — what a run of operations writes
* `leavesOpen_iff` — when a list is open

What is written also nests (`Nests`): no list is closed that is not open, and a line begins only in
front of a list, with two blanks for every list around it.
-/

namespace Arith.Sexpr.Writer

/-! ## Operations -/

/-- What can be asked of a writer. -/
inductive Operation where
  | openList
  | closeList
  | atom (text : List Char)
  | expr (e : Expr)
  | setIndented (indented : Bool)
  deriving DecidableEq, Repr

/-- What an operation writes, or why it is refused. -/
abbrev Answer := Except Fault (List Char)

/-- What an operation writes, and the writer behind it; it stays as it is if it refuses. -/
def perform (w : Writer) : Operation → Answer × Writer
  | .openList => (.ok w.openList.1, w.openList.2)
  | .closeList =>
    match w.closeList with
    | .ok (text, w') => (.ok text, w')
    | .error f => (.error f, w)
  | .atom text => (.ok (w.atom text).1, (w.atom text).2)
  | .expr e => (.ok (w.expr e).1, (w.expr e).2)
  | .setIndented indented => (.ok [], w.setIndented indented)

/-- What is answered to some operations one after the other, and the writer behind them. -/
def trace (w : Writer) : List Operation → List Answer × Writer
  | [] => ([], w)
  | op :: ops =>
    let (answer, w') := w.perform op
    let (answers, final) := trace w' ops
    (answer :: answers, final)

/-- The text that an answer adds to what was written. -/
def added : Answer → List Char
  | .ok text => text
  | .error _ => []

/-- The text that was written with some answers. -/
def written (answers : List Answer) : List Char := answers.flatMap added

/-- The items that an operation asks for. -/
def Operation.items : Operation → List Item
  | .openList => [.opening]
  | .closeList => [.closing]
  | .atom text => [.atom text]
  | .expr e => e.items
  | .setIndented _ => []

/-- The items that an operation asks for, if it is not refused. -/
def itemsOf (op : Operation) : Answer → List Item
  | .ok _ => op.items
  | .error _ => []

/-- An atom that is written holds characters, but no blanks and no parentheses. -/
def Operation.Proper : Operation → Prop
  | .atom text => text ≠ [] ∧ ∀ c ∈ text, InAtom c
  | _ => True

/-! ## Steps of a run -/

variable {w : Writer} {s : Cutter} {op : Operation} {ops : List Operation}

theorem trace_append (w : Writer) (ops ops' : List Operation) :
    trace w (ops ++ ops')
      = ((trace w ops).1 ++ (trace (trace w ops).2 ops').1, (trace (trace w ops).2 ops').2) := by
  induction ops generalizing w with
  | nil => rfl
  | cons op ops ih =>
    simp only [List.cons_append, trace]
    rw [ih]

@[simp] theorem perform_closeList_zero (h : w.depth = 0) :
    w.perform .closeList = (.error .notOpen, w) := by
  simp [perform, closeList, h]

@[simp] theorem perform_closeList_succ (h : w.depth ≠ 0) :
    w.perform .closeList
      = (.ok [')'], { w with depth := w.depth - 1, atListStart := false }) := by
  simp [perform, closeList, h]

/-- Nothing is refused but to close a list where none is open. -/
theorem perform_eq_error_iff {f : Fault} :
    (w.perform op).1 = .error f ↔ op = .closeList ∧ w.depth = 0 := by
  obtain ⟨⟩ := f
  cases op with
  | closeList =>
    by_cases h : w.depth = 0
    · simp [h]
    · simp [h]
  | _ => simp [perform]

/-- A writer that refuses stays as it is. -/
theorem perform_of_error {f : Fault} (h : (w.perform op).1 = .error f) :
    (w.perform op).2 = w := by
  obtain ⟨rfl, hdepth⟩ := perform_eq_error_iff.1 h
  rw [perform_closeList_zero hdepth]

/-- The answer at a place is that of the writer that the operations before have led to. -/
theorem getElem?_trace (w : Writer) (ops : List Operation) (i : Nat) :
    (trace w ops).1[i]? = ops[i]?.map fun op => ((trace w (ops.take i)).2.perform op).1 := by
  induction ops generalizing w i with
  | nil => rfl
  | cons op ops ih =>
    cases i with
    | zero => rfl
    | succ i => exact ih (w.perform op).2 i

/-- Without what it refuses, a writer answers the same to all the rest. -/
theorem trace_eraseIdx {i : Nat} {f : Fault} (h : (trace w ops).1[i]? = some (.error f)) :
    (trace w (ops.eraseIdx i)).1 = (trace w ops).1.eraseIdx i := by
  induction ops generalizing w i with
  | nil => cases h
  | cons op ops ih =>
    cases i with
    | zero =>
      have hsame : (w.perform op).2 = w := perform_of_error (Option.some.inj h)
      show (trace w ops).1 = (trace (w.perform op).2 ops).1
      rw [hsame]
    | succ i => exact congrArg ((w.perform op).1 :: ·) (ih h)

/-- An answer that refuses adds nothing to the text. -/
theorem written_eraseIdx {answers : List Answer} {i : Nat} {f : Fault}
    (h : answers[i]? = some (.error f)) : written (answers.eraseIdx i) = written answers := by
  induction answers generalizing i with
  | nil => rfl
  | cons answer answers ih =>
    cases i with
    | zero =>
      obtain rfl := Option.some.inj h
      rfl
    | succ i => exact congrArg (added answer ++ ·) (ih h)

/-! ## Lists that are open -/

/-- Behind an expression a writer is where it was, but not at the start of a list. -/
theorem snd_expr (e : Expr) (w : Writer) : (w.expr e).2 = { w with atListStart := false } := by
  induction e generalizing w with
  | constant n => rfl
  | binary op left right ihleft ihright => simp [expr, openList, atom, ihleft, ihright]

/-- The writer behind the operator of an operation. -/
def inside (w : Writer) : Writer := { w with depth := w.depth + 1, atListStart := false }

@[simp] theorem depth_inside (w : Writer) : w.inside.depth = w.depth + 1 := rfl

@[simp] theorem indented_inside (w : Writer) : w.inside.indented = w.indented := rfl

@[simp] theorem atListStart_inside (w : Writer) : w.inside.atListStart = false := rfl

/-- Both sides of an operation are written inside one more list, behind the operator. -/
theorem fst_expr_binary (op : Arith.Operator) (left right : Expr) (w : Writer) :
    (w.expr (.binary op left right)).1
      = w.openList.1
        ++ ([op.char] ++ ((w.inside.expr left).1 ++ ((w.inside.expr right).1 ++ [')']))) := by
  simp [expr, openList, atom, gap, inside, snd_expr]

/-- Only opening and closing lists changes how many are open. -/
theorem depth_perform (hopen : op ≠ .openList) (hclose : op ≠ .closeList) :
    (w.perform op).2.depth = w.depth := by
  cases op with
  | openList => exact absurd rfl hopen
  | closeList => exact absurd rfl hclose
  | atom text => rfl
  | expr e => simp [perform, snd_expr]
  | setIndented indented => rfl

theorem depth_perform_closeList (w : Writer) : (w.perform .closeList).2.depth = w.depth - 1 := by
  by_cases h : w.depth = 0
  · simp [h]
  · simp [h]

/-- Operations that close every list that they open, and no other. -/
inductive Closed : List Operation → Prop where
  | nil : Closed []
  | other {op : Operation} {ops : List Operation} (hopen : op ≠ .openList)
      (hclose : op ≠ .closeList) (rest : Closed ops) : Closed (op :: ops)
  | list {inner ops : List Operation} (inside : Closed inner) (rest : Closed ops) :
      Closed (.openList :: (inner ++ .closeList :: ops))

/--
Behind some operations a list is open that one of them has opened: what comes after this one closes
every list that it opens, and no other.
-/
def LeavesOpen (ops : List Operation) : Prop :=
  ∃ outer inner, ops = outer ++ .openList :: inner ∧ Closed inner

theorem Closed.append {ops ops' : List Operation} (h : Closed ops) (h' : Closed ops') :
    Closed (ops ++ ops') := by
  induction h with
  | nil => exact h'
  | other hopen hclose _ ih => exact .other hopen hclose ih
  | list inside _ _ ih =>
    rw [List.cons_append, List.append_assoc]
    exact .list inside ih

/-- Where all is closed that was opened, as many lists are open as before. -/
theorem Closed.depth_trace (h : Closed ops) (w : Writer) : (trace w ops).2.depth = w.depth := by
  induction h generalizing w with
  | nil => rfl
  | other hopen hclose _ ih =>
    show (trace (perform w _).2 _).2.depth = w.depth
    rw [ih, depth_perform hopen hclose]
  | @list inner ops _ _ ihinner ihrest =>
    have hinner : (trace w.openList.2 inner).2.depth = w.depth + 1 := ihinner _
    show (trace w.openList.2 (inner ++ .closeList :: ops)).2.depth = w.depth
    rw [trace_append]
    show (trace (perform _ .closeList).2 ops).2.depth = w.depth
    rw [ihrest, depth_perform_closeList, hinner, Nat.add_sub_cancel]

/-- A list that was left open counts on top of those that were open before it. -/
theorem depth_trace_openList {outer inner : List Operation} (h : Closed inner) (w : Writer) :
    (trace w (outer ++ .openList :: inner)).2.depth = (trace w outer).2.depth + 1 := by
  rw [trace_append]
  exact h.depth_trace _

/-- Where a list is open, one of the operations has opened it and it was not closed since. -/
theorem leavesOpen_of_depth (hw : w.depth = 0) (h : 0 < (trace w ops).2.depth) :
    LeavesOpen ops := by
  induction hn : ops.length using Nat.strongRecOn generalizing ops with
  | ind n ih =>
    subst hn
    rcases List.eq_nil_or_concat ops with rfl | ⟨init, op, rfl⟩
    · exact absurd h (by simp [trace, hw])
    rw [List.concat_eq_append] at *
    have hlength : init.length < (init ++ [op]).length := by simp
    have hdepth : (trace w (init ++ [op])).2.depth
        = ((trace w init).2.perform op).2.depth := by
      rw [trace_append]
      rfl
    rw [hdepth] at h
    by_cases hopen : op = .openList
    · subst hopen
      exact ⟨init, [], rfl, .nil⟩
    by_cases hclose : op = .closeList
    · -- the list that is closed was opened last; the one around it is still open
      subst hclose
      rw [depth_perform_closeList] at h
      obtain ⟨outer', inner', rfl, hinner'⟩ := ih _ hlength (by omega) rfl
      rw [depth_trace_openList hinner', Nat.add_sub_cancel] at h
      obtain ⟨outer, inner, rfl, hinner⟩ := ih outer'.length (by simp) h rfl
      exact ⟨outer, inner ++ .openList :: (inner' ++ [.closeList]), by simp,
        hinner.append (.list hinner' .nil)⟩
    · rw [depth_perform hopen hclose] at h
      obtain ⟨outer, inner, rfl, hinner⟩ := ih _ hlength h rfl
      exact ⟨outer, inner ++ [op], by simp, hinner.append (.other hopen hclose .nil)⟩

/-- **A list is open just if it was opened and all that was opened in it is closed.** -/
theorem leavesOpen_iff (hw : w.depth = 0) : LeavesOpen ops ↔ 0 < (trace w ops).2.depth := by
  constructor
  · rintro ⟨outer, inner, rfl, hinner⟩
    rw [depth_trace_openList hinner]
    exact Nat.succ_pos _
  · exact leavesOpen_of_depth hw

/-! ## The items of a run -/

/-- **What is cut off an operation are its items**, unless it is refused. -/
theorem items_perform (h : w.Follows s) (hop : op.Proper) :
    (s.run (added (w.perform op).1)).items = s.items ++ itemsOf op (w.perform op).1 ∧
      (w.perform op).2.Follows (s.run (added (w.perform op).1)) := by
  cases op with
  | openList =>
    show (s.run w.openList.1).items = s.items ++ [.opening] ∧ Follows _ (s.run w.openList.1)
    rw [run_openList]
    exact ⟨rfl, fun _ => rfl⟩
  | closeList =>
    by_cases hdepth : w.depth = 0
    · rw [perform_closeList_zero hdepth]
      exact ⟨(List.append_nil _).symm, h⟩
    · rw [perform_closeList_succ hdepth]
      exact ⟨rfl, follows_of_not_atListStart rfl _⟩
  | atom text => exact ⟨items_atom hop.1 hop.2 h, follows_of_not_atListStart rfl _⟩
  | expr e => exact ⟨items_expr e h, follows_of_not_atListStart (atListStart_expr e w) _⟩
  | setIndented indented => exact ⟨(List.append_nil _).symm, h⟩

/-- **What is cut off a run are the items of all that is not refused.** -/
theorem items_trace (h : w.Follows s) (hops : ∀ op ∈ ops, op.Proper) :
    (s.run (written (trace w ops).1)).items
      = s.items ++ (ops.zip (trace w ops).1).flatMap fun p => itemsOf p.1 p.2 := by
  induction ops generalizing w s with
  | nil => exact (List.append_nil _).symm
  | cons op ops ih =>
    obtain ⟨hop, hops⟩ := List.forall_mem_cons.1 hops
    obtain ⟨hitems, hfollows⟩ := items_perform h hop
    show (s.run (added (w.perform op).1 ++ written (trace (w.perform op).2 ops).1)).items
      = s.items ++ (itemsOf op (w.perform op).1
        ++ (ops.zip (trace (w.perform op).2 ops).1).flatMap fun p => itemsOf p.1 p.2)
    rw [Cutter.run_append, ih hfollows hops, hitems, List.append_assoc]

/-! ## Nesting -/

/--
A text nests, with so many lists open before it and behind it. No list is closed that is not open,
and behind a line break stand two blanks for every open list, of which there is one at least, and
then a list begins.
-/
structure Nests (depth : Nat) (text : List Char) (depth' : Nat) : Prop where
  depth_eq : depth + text.count '(' = text.count ')' + depth'
  closing_le : ∀ pre post, text = pre ++ post → pre.count ')' ≤ depth + pre.count '('
  lineBreak : ∀ pre post, text = pre ++ '\n' :: post →
    ∃ inside rest, 0 < inside ∧ depth + pre.count '(' = pre.count ')' + inside ∧
      post = List.replicate (2 * inside) ' ' ++ '(' :: rest

/-- Atoms stand on one line. -/
theorem newline_notMem_of_inAtom {text : List Char} (h : ∀ c ∈ text, InAtom c) : '\n' ∉ text := by
  intro hmem
  cases (h '\n' hmem).2.2

/-- Other characters neither nest nor break lines. -/
theorem nests_plain {text : List Char} (h : ∀ c ∈ text, c ≠ '(' ∧ c ≠ ')' ∧ c ≠ '\n')
    (depth : Nat) : Nests depth text depth := by
  have hopening : ∀ {pre post}, text = pre ++ post → pre.count ')' = 0 := by
    rintro pre post rfl
    exact List.count_eq_zero.2 fun hmem => (h _ (List.mem_append_left _ hmem)).2.1 rfl
  constructor
  · rw [hopening (List.append_nil text).symm,
      List.count_eq_zero.2 fun hmem => (h _ hmem).1 rfl, Nat.zero_add, Nat.add_zero]
  · intro pre post htext
    rw [hopening htext]
    exact Nat.zero_le _
  · rintro pre post rfl
    exact absurd rfl (h '\n' (by simp)).2.2

theorem nests_inAtom {text : List Char} (h : ∀ c ∈ text, InAtom c) (depth : Nat) :
    Nests depth text depth := by
  refine nests_plain (fun c hc => ?_) depth
  obtain ⟨hopening, hclosing, -⟩ := h c hc
  exact ⟨hopening, hclosing, fun hbreak => newline_notMem_of_inAtom h (hbreak ▸ hc)⟩

theorem nests_nil (depth : Nat) : Nests depth [] depth :=
  nests_plain (fun _ hc => absurd hc List.not_mem_nil) depth

theorem Nests.append {a b : List Char} {d d' d'' : Nat} (ha : Nests d a d') (hb : Nests d' b d'') :
    Nests d (a ++ b) d'' := by
  have hdepth := ha.depth_eq
  constructor
  · have := hb.depth_eq
    rw [List.count_append, List.count_append]
    omega
  · intro pre post htext
    rcases List.append_eq_append_iff.1 htext with ⟨more, rfl, rfl⟩ | ⟨more, rfl, rfl⟩
    · have := hb.closing_le more post rfl
      rw [List.count_append, List.count_append]
      omega
    · exact ha.closing_le pre more rfl
  · intro pre post htext
    rcases List.append_eq_append_iff.1 htext with ⟨more, rfl, rfl⟩ | ⟨more, rfl, hpost⟩
    · obtain ⟨inside, rest, hpos, hcount, rfl⟩ := hb.lineBreak more post rfl
      refine ⟨inside, rest, hpos, ?_, rfl⟩
      rw [List.count_append, List.count_append]
      omega
    · cases more with
      | nil =>
        obtain ⟨inside, rest, hpos, hcount, rfl⟩ := hb.lineBreak [] post hpost.symm
        refine ⟨inside, rest, hpos, ?_, rfl⟩
        simp only [List.append_nil, List.count_nil] at *
        omega
      | cons c more =>
        obtain ⟨rfl, rfl⟩ := List.cons.inj hpost
        obtain ⟨inside, rest, hpos, hcount, rfl⟩ := ha.lineBreak pre more rfl
        exact ⟨inside, rest ++ b, hpos, hcount, by simp⟩

theorem nests_opening (depth : Nat) : Nests depth ['('] (depth + 1) := by
  constructor
  · simp
  · intro pre post htext
    rcases List.singleton_eq_append_iff.1 htext with ⟨rfl, -⟩ | ⟨rfl, -⟩ <;> simp
  · intro pre post htext
    rcases List.singleton_eq_append_iff.1 htext with ⟨-, hpost⟩ | ⟨-, hpost⟩ <;> cases hpost

theorem nests_closing (depth : Nat) : Nests (depth + 1) [')'] depth := by
  constructor
  · simp [Nat.add_comm]
  · intro pre post htext
    rcases List.singleton_eq_append_iff.1 htext with ⟨rfl, -⟩ | ⟨rfl, -⟩ <;> simp
  · intro pre post htext
    rcases List.singleton_eq_append_iff.1 htext with ⟨-, hpost⟩ | ⟨-, hpost⟩ <;> cases hpost

/-- Where a line begins, the list that comes next stands behind two blanks for every open list. -/
theorem nests_newLine {depth : Nat} (h : 0 < depth) :
    Nests depth (newLine depth ++ ['(']) (depth + 1) := by
  have hblank : ∀ c ∈ List.replicate (2 * depth) ' ', c = ' ' := fun c => List.eq_of_mem_replicate
  have hplain : Nests depth (List.replicate (2 * depth) ' ') depth :=
    nests_plain (fun c hc => by rw [hblank c hc]; decide) depth
  have hrest := hplain.append (nests_opening depth)
  rw [newLine, List.cons_append]
  constructor
  · simpa using hrest.depth_eq
  · intro pre post htext
    cases pre with
    | nil => simp
    | cons c pre =>
      obtain ⟨rfl, hpre⟩ := List.cons.inj htext
      simpa using hrest.closing_le pre post hpre
  · intro pre post htext
    cases pre with
    | nil =>
      obtain ⟨-, rfl⟩ := List.cons.inj htext
      exact ⟨depth, [], h, by simp, rfl⟩
    | cons c pre =>
      -- no other line begins in front of the list
      have hmem : '\n' ∈ List.replicate (2 * depth) ' ' ++ ['('] := by
        rw [(List.cons.inj htext).2]
        simp
      rcases List.mem_append.1 hmem with hmem | hmem
      · cases hblank _ hmem
      · cases List.mem_singleton.1 hmem

theorem nests_gap (w : Writer) : Nests w.depth w.gap w.depth := by
  refine nests_plain ?_ w.depth
  unfold gap
  split <;> simp

theorem nests_openList (w : Writer) : Nests w.depth w.openList.1 (w.depth + 1) := by
  unfold openList
  by_cases hindented : w.indented = true
  · by_cases hdepth : 0 < w.depth
    · simpa [hindented, hdepth] using nests_newLine hdepth
    · simpa [hindented, hdepth] using nests_opening w.depth
  · simpa [hindented] using (nests_gap w).append (nests_opening w.depth)

theorem nests_atom {text : List Char} (h : ∀ c ∈ text, InAtom c) (w : Writer) :
    Nests w.depth (w.atom text).1 w.depth :=
  (nests_gap w).append (nests_inAtom h w.depth)

/-- **An expression nests** in both layouts. -/
theorem nests_expr (e : Expr) (w : Writer) : Nests w.depth (w.expr e).1 w.depth := by
  induction e generalizing w with
  | constant n =>
    show Nests w.depth (w.atom (Numeral.write n)).1 w.depth
    exact nests_atom (fun _ hc => inAtom_of_mem_write hc) w
  | binary op left right ihleft ihright =>
    have hoperator : Nests (w.depth + 1) [op.char] (w.depth + 1) :=
      nests_inAtom (List.forall_mem_singleton.2 (inAtom_char op)) _
    rw [fst_expr_binary]
    exact (nests_openList w).append <| hoperator.append <| (ihleft w.inside).append <|
      (ihright w.inside).append (nests_closing w.depth)

/-- **What an operation writes nests.** -/
theorem nests_perform (hop : op.Proper) :
    Nests w.depth (added (w.perform op).1) (w.perform op).2.depth := by
  cases op with
  | openList => exact nests_openList w
  | closeList =>
    by_cases h : w.depth = 0
    · rw [perform_closeList_zero h]
      exact nests_nil w.depth
    · obtain ⟨depth, hdepth⟩ := Nat.exists_eq_succ_of_ne_zero h
      rw [perform_closeList_succ h, hdepth]
      exact nests_closing depth
  | atom text => exact nests_atom hop.2 w
  | expr e =>
    have hdepth : (w.perform (.expr e)).2.depth = w.depth :=
      depth_perform (by simp) (by simp)
    rw [hdepth]
    exact nests_expr e w
  | setIndented indented => exact nests_nil w.depth

/-- **What a run writes nests.** -/
theorem nests_trace (hops : ∀ op ∈ ops, op.Proper) (w : Writer) :
    Nests w.depth (written (trace w ops).1) (trace w ops).2.depth := by
  induction ops generalizing w with
  | nil => exact nests_nil w.depth
  | cons op ops ih =>
    obtain ⟨hop, hops⟩ := List.forall_mem_cons.1 hops
    exact (nests_perform hop).append (ih hops _)

/-! ## A whole run -/

/--
**A writer writes the items that it is asked for, and refuses only to close what is not open.** In
a run of operations that begins with nothing written, just those are refused that close a list where
none is open; without them everything else is answered and written as it is with them. The items
that are cut off the text are those of all other operations, in order, and nowhere in the text more
lists are closed than were opened.
-/
theorem trace_items (indented : Bool) (hops : ∀ op ∈ ops, op.Proper) :
    let w : Writer := { indented }
    let answers := (trace w ops).1
    (∀ i, answers[i]? = some (.error .notOpen) ↔
      ops[i]? = some .closeList ∧ ¬ LeavesOpen (ops.take i)) ∧
    (∀ i, answers[i]? = some (.error .notOpen) →
      (trace w (ops.eraseIdx i)).1 = answers.eraseIdx i ∧
        written (answers.eraseIdx i) = written answers) ∧
    cut (written answers) = (ops.zip answers).flatMap (fun p => itemsOf p.1 p.2) ∧
    ∀ pre, pre <+: written answers → pre.count ')' ≤ pre.count '(' := by
  intro w answers
  refine ⟨fun i => ?_, fun i h => ⟨trace_eraseIdx h, written_eraseIdx h⟩,
    items_trace (fun _ => rfl) hops, ?_⟩
  · have hanswer : answers[i]? = _ := getElem?_trace w ops i
    rw [leavesOpen_iff (w := w) rfl, Nat.not_lt, Nat.le_zero]
    cases hop : ops[i]? with
    | none => simp [hanswer, hop]
    | some op => simp [hanswer, hop, perform_eq_error_iff]
  · rintro pre ⟨post, htext⟩
    have hle := (nests_trace hops w).closing_le pre post htext.symm
    rwa [Nat.zero_add] at hle

/-- A list is closed before any is opened, and inside a list the layout changes. -/
theorem trace_items_stray :
    let e : Expr := .binary .add (.constant 1) (.constant (-2))
    let ops : List Operation := [.closeList, .atom ['a'], .openList, .setIndented true, .openList,
      .closeList, .expr e, .closeList, .atom ['b']]
    let answers := (trace {} ops).1
    (∀ op ∈ ops, op.Proper) ∧ answers[0]? = some (.error .notOpen) ∧ ¬ LeavesOpen [] ∧
      (trace {} (ops.eraseIdx 0)).1 = answers.eraseIdx 0 ∧
      written answers = "a (\n  ()\n  (+ ".toList ++ Numeral.write 1 ++ ' ' ::
        (Numeral.write (-2) ++ ")) b".toList) ∧
      cut (written answers) = [.atom ['a'], .opening, .opening, .closing] ++ e.items
        ++ [.closing, .atom ['b']] := by
  intro e ops answers
  have ha : isBlank 'a' = false := rfl
  have hb : isBlank 'b' = false := rfl
  have hops : ∀ op ∈ ops, op.Proper := by
    simp [ops, Operation.Proper, InAtom, ha, hb]
  obtain ⟨hrefused, herased, hitems, -⟩ := trace_items false hops
  have hfirst : answers[0]? = some (.error .notOpen) := rfl
  have htext : written answers = "a (\n  ()\n  (+ ".toList ++ Numeral.write 1 ++ ' ' ::
      (Numeral.write (-2) ++ ")) b".toList) := by
    have hplus : Operator.add.char = '+' := rfl
    simp [answers, ops, e, written, added, trace, perform, openList, closeList, atom, expr, gap,
      newLine, setIndented, hplus]
  exact ⟨hops, hfirst, ((hrefused 0).1 hfirst).2, (herased 0 hfirst).1, htext, hitems.trans rfl⟩

end Arith.Sexpr.Writer
