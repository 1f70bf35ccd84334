import Arith.Command.Rendering
import Arith.Proofs.Expr.Fault
import Arith.Proofs.Token.Tiling

/-!
# What cannot be rendered

A text that has no draft of a rendering has an error, or a literal of too many digits is met, for
which there is no error (`Format.draft_fault_iff`). A listing meets the literal if all before it is
free of errors. An expression is rendered only once the whole text is parsed, so that a token at a
wrong place in front of the literal is reported instead.
-/

namespace Arith

open Arith.Parser
open Lexer (eq_tooLong_of_pulls exists_left_of_pulls pulls_stands stands_ofBytes)

variable {source : Bytes} {tokens : List Token} {rest : List Pull}

/-! ## Listings -/

/-- All tokens of a stream have a text. -/
theorem exists_text_of_pulls (h : (Lexer.ofBytes source).pulls = tokens.map .token ++ rest) :
    ∀ t ∈ tokens, ∃ text, t.text? source = some text := by
  intro t ht
  obtain ⟨left, hlexed, -⟩ := exists_left_of_pulls (stands_ofBytes source) h
  have htiled : Lexer.Tiled source 0 tokens := hlexed.tiled (rfl : ([] : Bytes).length = 0)
  obtain ⟨text, htext, -⟩ := htiled.text t ht
  exact ⟨text, htext⟩

/-- Tokens that have a text do not end a listing. -/
theorem listPulls_tokens (h : ∀ t ∈ tokens, ∃ text, t.text? source = some text) :
    (listPulls source (tokens.map .token ++ rest)).2 = (listPulls source rest).2 := by
  induction tokens with
  | nil => rfl
  | cons t tokens ih =>
    obtain ⟨htext, htokens⟩ := List.forall_mem_cons.1 h
    obtain ⟨text, htext⟩ := htext
    rw [List.map_cons, List.cons_append, listPulls, htext]
    exact ih htokens

/-- A listing ends for the reason that the stream ends. -/
theorem listTokens_of_pulls (h : (Lexer.ofBytes source).pulls = tokens.map .token ++ rest) :
    (listTokens source).2 = (listPulls source rest).2 := by
  rw [listTokens, h, listPulls_tokens (exists_text_of_pulls h)]

/-! ## Literals of too many digits -/

namespace Command.Format

/-- The rendering of a text in a format meets a literal of too many digits. -/
def MeetsOverlong (f : Format) (content : Bytes) : Prop :=
  ∃ (tokens : List Token) (more : List Pull), (Lexer.ofBytes content).pulls
      = tokens.map .token ++ .fault (.numeral .tooLong) :: more ∧
    (f.isOfExpr = true → Placed 0 tokens)

/-- The fault of a rendering that meets a literal of too many digits. -/
def overlong (f : Format) : RenderFault :=
  if f.isOfExpr then .parse (.fault (.numeral .tooLong)) else .listing (.fault (.numeral .tooLong))

variable {f : Format} {indent : Bool} {content : Bytes} {fault : RenderFault}

/-- A text that has no rendering has no draft either. -/
theorem render_eq_error_iff :
    f.render indent content = .error fault ↔ f.draft content = .error fault := by
  unfold render
  cases f.draft content <;> simp [Except.map]

/-- An expression cannot be rendered. -/
theorem draft_of_expr (hf : f.isOfExpr = true) :
    (f.draft content = .error fault ∧ fault.error? = none)
      ↔ ∃ g, Expr.parse content = .error (.fault g) ∧ fault = .parse (.fault g) := by
  unfold draft
  rw [if_pos hf]
  cases hparse : Expr.parse content with
  | ok e => simp
  | error failure =>
    constructor
    · rintro ⟨hdraft, herror⟩
      cases hdraft
      cases failure with
      | error e => cases herror
      | fault g => exact ⟨g, rfl, rfl⟩
    · rintro ⟨g, hg, rfl⟩
      cases hg
      exact ⟨rfl, rfl⟩

/-- The tokens of a text cannot be listed. -/
theorem draft_of_tokens (hf : f.isOfExpr = false) :
    (f.draft content = .error fault ∧ fault.error? = none)
      ↔ ∃ g, (listTokens content).2 = some g ∧ fault = .listing g ∧ ∀ e, g ≠ .error e := by
  unfold draft
  rw [hf, if_neg Bool.false_ne_true]
  generalize listTokens content = listing
  obtain ⟨text, reason⟩ := listing
  cases reason with
  | none => simp
  | some g =>
    constructor
    · rintro ⟨hdraft, herror⟩
      cases hdraft
      refine ⟨g, rfl, rfl, ?_⟩
      rintro e rfl
      cases herror
    · rintro ⟨g', hg, rfl, hnone⟩
      cases hg
      refine ⟨rfl, ?_⟩
      cases g with
      | error e => exact absurd rfl (hnone e)
      | _ => rfl

/-- **A text without a draft has an error, or a literal of too many digits is met.** -/
theorem draft_fault_iff :
    (f.draft content = .error fault ∧ fault.error? = none)
      ↔ fault = f.overlong ∧ f.MeetsOverlong content := by
  cases hf : f.isOfExpr with
  | true =>
    rw [draft_of_expr hf, overlong, if_pos hf]
    constructor
    · rintro ⟨g, hparse, rfl⟩
      obtain ⟨tokens, more, hpulls, hplaced⟩ := Expr.parse_fault_iff.1 hparse
      obtain rfl := eq_tooLong_of_pulls hpulls
      exact ⟨rfl, tokens, more, hpulls, fun _ => hplaced⟩
    · rintro ⟨rfl, tokens, more, hpulls, hplaced⟩
      exact ⟨_, Expr.parse_fault_iff.2 ⟨tokens, more, hpulls, hplaced hf⟩, rfl⟩
  | false =>
    rw [draft_of_tokens hf, overlong, hf, if_neg Bool.false_ne_true]
    constructor
    · rintro ⟨g, hlist, rfl, hnone⟩
      obtain ⟨tokens, ending, hpulls, hending, -⟩ := pulls_stands (stands_ofBytes content)
      rw [listTokens_of_pulls hpulls] at hlist
      cases hending with
      | finished => cases hlist
      | error e =>
        cases hlist
        exact absurd rfl (hnone e)
      | overlong _ _ more =>
        cases hlist
        exact ⟨rfl, tokens, more, hpulls, fun h => absurd (hf.symm.trans h) Bool.false_ne_true⟩
    · rintro ⟨rfl, tokens, more, hpulls, -⟩
      exact ⟨_, listTokens_of_pulls hpulls, rfl, nofun⟩

end Command.Format

end Arith
