import Arith.Proofs.Command.Endings
import Arith.Proofs.Expr.Located

/-!
# Formats that agree about an error

A listing pulls the whole stream of tokens, and the parser only as far as it has to. So an error
that the parser meets in the stream is the one that the listing meets, and where the listing meets
one, the parser has met it too or has refused a token in front of it (`exists_agrees`). The formats
that render an expression do not differ about errors at all (`renderings_agree`).
-/

namespace Arith

open Arith.Parser
open Lexer (DigitRunsWithin Tokenless digitRunsWithin_of_length exists_tokens lastPull
  tokenless_lastPull tokens_unique)

/-! ## Errors behind tokens -/

namespace Lexer

variable {offset : Nat} {ahead left source : Bytes} {tokens : List Token} {stream : List Pull}
  {e : TokenError}

/-- No token that was read ends behind the last one. -/
theorem LexedAll.stop_le (h : LexedAll offset ahead tokens left) :
    ∀ t ∈ tokens, t.span.stop ≤ stopOf offset tokens := by
  induction h with
  | nil => exact nofun
  | @cons offset blanks text shape t tokens rest left ht htokens ih =>
    obtain ⟨s, -, hstop, -⟩ := htokens.exists_text
    refine List.forall_mem_cons.2 ⟨?_, ih⟩
    rw [stopOf, hstop]
    exact Nat.le_add_right _ _

theorem FailsAt.le_start (h : FailsAt offset ahead e) : offset ≤ e.span.start := by
  cases h with
  | malformed _ => exact Nat.le_add_right _ _
  | outOfRange _ _ => exact Nat.le_add_right _ _

/-- **A token error is about bytes behind all tokens that came before it.** -/
theorem stop_le_start_of_pulls
    (h : (ofBytes source).pulls = tokens.map .token ++ .error e :: stream) :
    ∀ t ∈ tokens, t.span.stop ≤ e.span.start := by
  obtain ⟨l, behind, left, hlexed, hl, hbehind, hpulls⟩ :=
    exists_stands_of_pulls (stands_ofBytes source) h
  have hfirst := head?_pulls l
  rw [hpulls] at hfirst
  have hfails := failsAt_of_next hl (Option.some.inj hfirst).symm
  intro t ht
  have hstop := hlexed.stop_le t ht
  rw [← hbehind] at hstop
  exact Nat.le_trans hstop hfails.le_start

end Lexer

/-! ## Listing and parsing -/

/--
What parsing a text brings agrees with the token error that the stream of its tokens ends with, if
any: it is an expression or lacks an operand where there is no error, it is about the error, or it
is about a token in front of it.
-/
inductive Agrees (content : Bytes) : Except Failure Expr → Option TokenError → Prop where
  | expr (e : Expr) : Agrees content (.ok e) none
  | ended (offset : Nat) : Agrees content (.error (.error (.unexpectedEnd offset))) none
  | held (e : TokenError) : Agrees content (.error (.error (.token e))) (some e)
  | misplaced {t : Token} {err : ParseError} {error? : Option TokenError}
      (herr : err = .notAnExpression t ∨ err = .leftOver t)
      (ht : .token t ∈ (Lexer.ofBytes content).pulls)
      (hstop : ∀ e ∈ error?, t.span.stop ≤ e.span.start) :
      Agrees content (.error (.error err)) error?

variable {content : Bytes} {tokens : List Token} {error? : Option TokenError}

/-- A listing ends with the error that the stream ends with. -/
theorem listTokens_of_lastPull
    (h : (Lexer.ofBytes content).pulls = tokens.map .token ++ [lastPull error?]) :
    (listTokens content).2 = error?.map .error := by
  rw [listTokens_of_pulls h]
  cases error? with
  | none => rfl
  | some e => rfl

/-- A token of a stream ends in front of the error that ends the stream. -/
theorem stop_le_of_mem_pulls {t : Token}
    (h : (Lexer.ofBytes content).pulls = tokens.map .token ++ [lastPull error?])
    (ht : .token t ∈ (Lexer.ofBytes content).pulls) : ∀ e ∈ error?, t.span.stop ≤ e.span.start := by
  rintro e rfl
  rw [h] at ht
  rcases List.mem_append.1 ht with ht | ht
  · obtain ⟨u, hu, htoken⟩ := List.mem_map.1 ht
    cases htoken
    exact Lexer.stop_le_start_of_pulls h t hu
  · cases List.mem_singleton.1 ht

/-- However a stream is split behind its tokens, it ends in the same way. -/
theorem eq_of_split {rest : List Pull} {tokens' : List Token}
    (h : (Lexer.ofBytes content).pulls = tokens.map .token ++ [lastPull error?])
    (hsplit : (Lexer.ofBytes content).pulls = tokens'.map .token ++ rest)
    (hrest : Tokenless rest) : rest = [lastPull error?] :=
  (tokens_unique (h.symm.trans hsplit) (tokenless_lastPull error?) hrest).2.symm

/-- A parser that fails agrees with the stream that it fails at. -/
theorem agrees_of_blames {rest : List Pull} {tokens' : List Token} {f : Failure}
    (h : (Lexer.ofBytes content).pulls = tokens.map .token ++ [lastPull error?])
    (hsplit : (Lexer.ofBytes content).pulls = tokens'.map .token ++ rest)
    (hblames : Blames tokens' rest f) : Agrees content (.error f) error? := by
  have hmem : ∀ pull ∈ rest, pull ∈ (Lexer.ofBytes content).pulls := by
    intro pull hpull
    rw [hsplit]
    exact List.mem_append_right _ hpull
  cases hblames with
  | notAnExpression t stream =>
    have ht := hmem _ List.mem_cons_self
    exact Agrees.misplaced (Or.inl rfl) ht (stop_le_of_mem_pulls h ht)
  | leftOver t stream =>
    have ht := hmem _ List.mem_cons_self
    exact Agrees.misplaced (Or.inr rfl) ht (stop_le_of_mem_pulls h ht)
  | held e stream =>
    have hend := eq_of_split h hsplit fun t ht => by cases ht
    cases error? with
    | none => cases hend
    | some e' =>
      cases hend
      exact Agrees.held e
  | ended hrest =>
    have hbare : Tokenless rest := by
      intro t ht
      rcases hrest with hrest | hrest
      · cases hrest.symm.trans ht
      · cases hrest.symm.trans ht
    obtain rfl := eq_of_split h hsplit hbare
    cases error? with
    | none => exact Agrees.ended _
    | some e =>
      rcases hrest with hrest | hrest
      · cases hrest
      · cases hrest
  | fault t f stream =>
    have hfault := hmem (.fault f) (List.mem_cons_of_mem _ List.mem_cons_self)
    rw [h] at hfault
    exact absurd hfault (faultless_tokens tokens (Expr.lastPull_bare error?).1 f)

/-- **Parsing a text agrees with listing its tokens.** -/
theorem exists_agrees (h : DigitRunsWithin Numeral.digitLimit content) :
    ∃ error? : Option TokenError, (listTokens content).2 = error?.map .error ∧
      Agrees content (Expr.parse content) error? := by
  obtain ⟨tokens, error?, hpulls⟩ := exists_tokens h
  refine ⟨error?, listTokens_of_lastPull hpulls, ?_⟩
  have hpullable := (Expr.faultless_of_digitRunsWithin h).pullable
  have hparse := Expr.parse_eq hpullable
  cases hwhole : whole (facing [] (Lexer.ofBytes content).pulls) with
  | ok e p =>
    rw [hwhole] at hparse
    obtain ⟨tokens', hsplit, -⟩ := Expr.eq_of_parse_ok hparse
    have hend := eq_of_split hpulls hsplit (tokenless_lastPull none)
    rw [hparse]
    cases error? with
    | none => exact Agrees.expr e
    | some e' => cases hend
  | error f p =>
    rw [hwhole] at hparse
    obtain ⟨tokens', rest, hsplit, hblames⟩ := blames_of_whole hpullable hwhole
    rw [hparse]
    exact agrees_of_blames hpulls hsplit hblames

/-! ## Renderings -/

namespace Command

namespace Format

/-- A format of expressions renders what is parsed. -/
theorem render_eq_parse {f : Format} (hf : f.isOfExpr = true) (indent : Bool) (content : Bytes) :
    f.render indent content = match Expr.parse content with
      | .ok e => .ok (f.renderExpr indent e)
      | .error failure => .error (.parse failure) := by
  unfold render draft
  rw [if_pos hf]
  cases Expr.parse content <;> rfl

/-- A listing is rendered unless it ends with an error. -/
theorem render_tokens (h : (listTokens content).2 = error?.map .error) (indent : Bool) :
    Format.tokens.render indent content = error?.elim (.ok (listTokens content).1)
      fun e => .error (.listing (.error e)) := by
  have hformat : ¬ Format.tokens.isOfExpr = true := Bool.false_ne_true
  unfold render draft
  rw [if_neg hformat]
  generalize listTokens content = listing at h ⊢
  obtain ⟨text, reason⟩ := listing
  dsimp only at h
  subst h
  cases error? with
  | none => rfl
  | some e => rfl

end Format

/--
What the parser reports of a text in which a token error stands: that error, or a token that it
refuses in front of it.
-/
def Anticipates (content : Bytes) (err : ParseError) (e : TokenError) : Prop :=
  (err.kind = .parse ∧ err.message = e.message ∧ err.span = e.span ∧ err.cause? = some e) ∨
    err.kind = .unexpectedToken ∧ err.cause? = none ∧
      ∃ t, .token t ∈ (Lexer.ofBytes content).pulls ∧ err.span = t.span ∧
        t.span.stop ≤ e.span.start

/--
**The formats agree about what is wrong with a text.** Two renderings of the expression, indented or
not, are both made, and then a listing too, or there is one error of the parser for both. If there
is no listing, that error is about the token error that the listing meets, or about a token that
ends in front of it. And if it is about a token error, the listing meets the same one, so that the
command reports the same and ends in the same way.
-/
theorem renderings_agree {content : Bytes} (h : DigitRunsWithin Numeral.digitLimit content)
    {f g : Format} (hf : f.isOfExpr = true) (hg : g.isOfExpr = true) (indent indent' : Bool) :
    ((∃ text text' listing, f.render indent content = .ok text ∧
          g.render indent' content = .ok text' ∧
          Format.tokens.render indent content = .ok listing) ∨
        ∃ err, f.render indent content = .error (.parse (.error err)) ∧
          g.render indent' content = .error (.parse (.error err))) ∧
      (∀ fault, Format.tokens.render indent content = .error fault →
        ∃ e err, fault = .listing (.error e) ∧
          f.render indent content = .error (.parse (.error err)) ∧ Anticipates content err e) ∧
      ∀ err e, f.render indent content = .error (.parse (.error err)) → err.cause? = some e →
        Format.tokens.render indent content = .error (.listing (.error e)) ∧
        ∀ (st : Settings) (d : Document), d.content = content →
          (compile { st with format? := some f } d : StateM Surroundings Ending)
            = compile { st with format? := some .tokens } d := by
  obtain ⟨error?, hlist, hagrees⟩ := exists_agrees h
  have htokens := Format.render_tokens hlist
  have hrender (indent : Bool) := Format.render_eq_parse hf indent content
  have hrender' := Format.render_eq_parse hg indent' content
  generalize Expr.parse content = parsed at hagrees hrender hrender'
  cases hagrees with
  | expr e =>
    refine ⟨Or.inl ⟨_, _, _, hrender indent, hrender', htokens indent⟩, ?_, ?_⟩
    · intro fault hfault
      cases (htokens indent).symm.trans hfault
    · intro err e' herr
      cases (hrender indent).symm.trans herr
  | ended offset =>
    refine ⟨Or.inr ⟨_, hrender indent, hrender'⟩, ?_, ?_⟩
    · intro fault hfault
      cases (htokens indent).symm.trans hfault
    · intro err e' herr hcause
      cases (hrender indent).symm.trans herr
      cases hcause
  | held e =>
    refine ⟨Or.inr ⟨_, hrender indent, hrender'⟩, ?_, ?_⟩
    · intro fault hfault
      cases (htokens indent).symm.trans hfault
      exact ⟨e, _, rfl, hrender indent, Or.inl ⟨rfl, rfl, rfl, rfl⟩⟩
    · intro err e' herr hcause
      cases (hrender indent).symm.trans herr
      cases hcause
      refine ⟨htokens indent, ?_⟩
      rintro st d rfl
      calc (compile { st with format? := some f } d : StateM Surroundings Ending)
        _ = report st d e.message e.span :=
          compile_eq_report { st with format? := some f } d
            (Format.render_eq_error_iff.1 (hrender st.indent)) rfl
        _ = compile { st with format? := some .tokens } d :=
          (compile_eq_report { st with format? := some .tokens } d
            (Format.render_eq_error_iff.1 (htokens st.indent)) rfl).symm
  | @misplaced t err _ herr ht hstop =>
    have hkind : err.kind = .unexpectedToken ∧ err.cause? = none ∧ err.span = t.span := by
      rcases herr with rfl | rfl
      · exact ⟨rfl, rfl, rfl⟩
      · exact ⟨rfl, rfl, rfl⟩
    obtain ⟨hkind, hcause, hspan⟩ := hkind
    refine ⟨Or.inr ⟨_, hrender indent, hrender'⟩, ?_, ?_⟩
    · intro fault hfault
      rw [htokens] at hfault
      cases error? with
      | none => cases hfault
      | some e =>
        cases hfault
        exact ⟨e, err, rfl, hrender indent, Or.inr ⟨hkind, hcause, t, ht, hspan, hstop e rfl⟩⟩
    · intro err' e' herr' hcause'
      cases (hrender indent).symm.trans herr'
      cases hcause.symm.trans hcause'

/-- In "1 +" and a byte that begins no character, all formats report the byte; in "1 2" and this
byte, a listing reports the byte and the others the second number. -/
theorem renderings_agree_malformed :
    let held : Bytes := [0x31, 0x2B, 0xFF]
    let refused : Bytes := [0x31, 0x20, 0x32, 0x20, 0xFF]
    let two : Token := ⟨.ofLength 2 1, .number 2⟩
    (DigitRunsWithin Numeral.digitLimit held ∧ DigitRunsWithin Numeral.digitLimit refused) ∧
      (Format.tokens.render false held
          = .error (.listing (.error (.text (.ofMalformed 2 (.badLead 0xFF))))) ∧
        ∀ (st : Settings) (d : Document), d.content = held →
          (compile { st with format? := some .sexpr } d : StateM Surroundings Ending)
            = compile { st with format? := some .tokens } d) ∧
      Format.tree.render true refused = .error (.parse (.error (.leftOver two))) ∧
      Anticipates refused (.leftOver two) (.text (.ofMalformed 4 (.badLead 0xFF))) := by
  intro held refused two
  have hheld : DigitRunsWithin Numeral.digitLimit held := digitRunsWithin_of_length (by decide)
  have hrefused : DigitRunsWithin Numeral.digitLimit refused :=
    digitRunsWithin_of_length (by decide)
  have hsexpr : Format.sexpr.render false held
      = .error (.parse (.error (.token (.text (.ofMalformed 2 (.badLead 0xFF)))))) := by cbv
  have htree : Format.tree.render true refused = .error (.parse (.error (.leftOver two))) := by
    cbv
  have hpulls : (Lexer.ofBytes refused).pulls = [⟨.ofLength 0 1, .number 1⟩, two].map .token
      ++ [lastPull (some (.text (.ofMalformed 4 (.badLead 0xFF))))] := by cbv
  have htokens : Format.tokens.render true refused
      = .error (.listing (.error (.text (.ofMalformed 4 (.badLead 0xFF))))) :=
    Format.render_tokens (listTokens_of_lastPull hpulls) true
  have hsame := (renderings_agree hheld (f := .sexpr) (g := .tree) rfl rfl false false).2.2 _ _
    hsexpr rfl
  obtain ⟨e, err, hfault, herr, hanticipates⟩ :=
    (renderings_agree hrefused (f := .tree) (g := .sexpr) rfl rfl true false).2.1 _ htokens
  cases hfault
  cases htree.symm.trans herr
  exact ⟨⟨hheld, hrefused⟩, hsame, htree, hanticipates⟩

end Command

end Arith
