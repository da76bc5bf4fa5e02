import Mathlib.Data.List.Forall2
import PipelineScript.Proofs.Expression.Calls
import PipelineScript.Proofs.Statement.Reading

/-! # The tokens of arguments

An invocation is cut into its arguments at the commas outside of brackets. Main statement: the code
of a call that begins with a plain name is the name with the code of its arguments in parentheses,
and commas between them (`Reading.takes_bareInvocation`). -/

namespace PipelineScript

open Token

namespace Token

/-- Where an expression is not cut off, nothing outside of its brackets ends it. -/
theorem stays_of_expressionLength {stop : Token → Bool} {depth : Nat} {ts : List Token}
    (h : expressionLength stop depth ts = ts.length) :
    ∀ l ∈ Lexeme.outside depth (ts.map Token.lexeme),
      ∃ t : Token, t.lexeme = l ∧ (t.endsExpression || stop t) = false := by
  induction ts generalizing depth with
  | nil => exact List.forall_mem_nil _
  | cons t ts ih =>
    rw [expressionLength, List.length_cons] at h
    split at h
    · cases h
    · rename_i hgo
      rw [depthAfter_eq] at h
      have hrest := ih (Nat.succ.inj h)
      rw [List.map_cons, Lexeme.outside]
      split
      · rename_i hdepth
        rw [not_and, Bool.not_eq_true] at hgo
        exact List.forall_mem_cons.mpr ⟨⟨t, rfl, hgo hdepth⟩, hrest⟩
      · exact hrest

theorem code_append (ts us : List Token) : code (ts ++ us) = code ts ++ code us := by
  simp [code]

end Token

namespace Reading

/-- The argument is the text of the tokens, an expression that ends before a comma. -/
structure IsArgument (text : List Char) (code : List Token) (e : SourceExpr) (piece : List Token) :
    Prop where
  row : piece <:+: code
  encloses : Encloses [] piece
  length : expressionLength (fun t => t.isPunct .comma) 0 piece = piece.length
  source : Cursor.sourceOf? text piece = some e

variable {text : List Char} {code : List Token} {c c₁ : Cursor}

theorem IsArgument.undivided {e : SourceExpr} {piece : List Token}
    (h : IsArgument text code e piece) : Lexeme.Undivided (Token.code piece) := by
  refine ⟨by rw [Lexeme.nest_code, h.encloses.nest], fun hcomma => ?_⟩
  rw [Token.code, Lexeme.outside_filter] at hcomma
  obtain ⟨t, ht, hstay⟩ := stays_of_expressionLength h.length _ (List.mem_filter.mp hcomma).1
  simp [Token.isPunct, ht] at hstay

/-- An argument begins with code. -/
theorem IsArgument.code_ne_nil {e : SourceExpr} {piece : List Token}
    (h : IsArgument text code e piece) (hcode : ∀ t ∈ code, t.lexeme.isComment = false) :
    Token.code piece ≠ [] := by
  cases piece with
  | nil => cases h.source
  | cons t piece =>
    have hline : t.lexeme.isLineEnd = false := h.encloses.isLineEnd_head? t rfl
    have hcomment := hcode t (h.row.subset List.mem_cons_self)
    rw [code_cons, if_pos (by simp [Lexeme.isCode, hline, hcomment])]
    exact List.cons_ne_nil _ _

theorem takes_argument (hcode : Token.Balanced code) (hc : Within text code c) (what : String) :
    Takes (expression (fun t => t.isPunct .comma) what) c (IsArgument text code) := by
  unfold expression
  refine (takes_expressionTokens hcode hc _).bind fun tokens piece c' hp h => ?_
  obtain ⟨rfl, hrow, hencl, hlen⟩ := h
  refine (takes_sourceOf tokens _).mono fun e more he => ?_
  obtain ⟨rfl, hsource⟩ := he
  rw [(hc.passes hp).source] at hsource
  rw [List.append_nil]
  exact ⟨hrow, hencl, hlen, hsource⟩

/-- The tokens are those of the arguments, with commas between them. -/
structure AreArguments (text : List Char) (code : List Token) (args : List SourceExpr)
    (pieces : List (List Token)) (inner : List Token) : Prop where
  each : List.Forall₂ (IsArgument text code) args pieces
  commas : Token.code inner = List.intercalate [.punct .comma] (pieces.map Token.code)

namespace AreArguments

variable {args : List SourceExpr} {pieces : List (List Token)} {inner : List Token}
  (h : AreArguments text code args pieces inner)
include h

theorem isArgument : ∀ piece ∈ pieces, ∃ e, IsArgument text code e piece := by
  obtain ⟨heach, -⟩ := h
  induction heach with
  | nil => exact List.forall_mem_nil _
  | cons he _ ih => exact List.forall_mem_cons.mpr ⟨⟨_, he⟩, ih⟩

theorem balanced : Token.Balanced inner := by
  rw [Token.Balanced, ← Lexeme.nest_code, h.commas]
  refine Lexeme.nest_intercalate (List.forall_mem_map.mpr fun piece hpiece => ?_)
  obtain ⟨e, he⟩ := h.isArgument piece hpiece
  exact he.undivided.nest

/-- The code of a whole call. -/
theorem code_eq {t p q : Token} {name : String} (ht : t.lexeme = .ident name)
    (hp : p.lexeme = .punct .openParen) (hq : q.lexeme = .punct .closeParen) :
    Token.code (t :: p :: (inner ++ [q])) = .ident name :: .punct .openParen ::
      (List.intercalate [.punct .comma] (pieces.map Token.code) ++ [.punct .closeParen]) := by
  rw [code_cons, code_cons, code_append, h.commas, code_cons, ht, hp, hq]
  rfl

end AreArguments

theorem takes_pieces (hcode : Token.Balanced code) (n : Nat) (hc : Within text code c) :
    Takes (arguments n) c fun args used => ∃ pieces inner q, used = inner ++ [q] ∧
      q.lexeme = .punct .closeParen ∧ pieces ≠ [] ∧
      AreArguments text code args pieces inner := by
  induction n generalizing c with
  | zero => exact takes_fail _
  | succ n ih =>
    unfold arguments
    refine (takes_argument hcode hc _).bind fun e piece c' hp he => ?_
    have hc' := hc.passes hp
    refine (takes_accept _).bind fun found used c'' hp' h => ?_
    rcases h with ⟨rfl, comma, rfl, hcomma⟩ | ⟨rfl, rfl⟩
    · refine (ih (hc'.passes hp')).bind fun args used _ _ h => takes_pure ?_
      obtain ⟨pieces, inner, q, rfl, hq, hne, hargs⟩ := h
      refine ⟨piece :: pieces, piece ++ comma :: inner, q, by simp, hq, List.cons_ne_nil _ _,
        .cons he hargs.each, ?_⟩
      obtain ⟨next, pieces, rfl⟩ := List.exists_cons_of_ne_nil hne
      rw [code_append, code_cons, hcomma, hargs.commas]
      simp [List.intercalate_cons_cons, Lexeme.isCode, Lexeme.isLineEnd, Lexeme.isComment]
    · refine (takes_mark _ _).bind fun _ used _ _ h => takes_pure ?_
      obtain ⟨q, rfl, hq⟩ := h
      exact ⟨[piece], piece, q, by simp, hq, List.cons_ne_nil _ _, .cons he .nil,
        List.intercalate_singleton.symm⟩

/-- The tokens of an invocation that begins with its name and a parenthesis. -/
theorem takes_bareInvocation (hcode : Token.Balanced code) (hc : Within text code c)
    (hat : c.isAtInvocation = true) {call : Invocation} (h : invocation c = .ok (call, c₁)) :
    ∃ t p inner q pieces, c.Passes (t :: p :: (inner ++ [q])) c₁ ∧ t.lexeme = .ident call.name ∧
      p.lexeme = .punct .openParen ∧ q.lexeme = .punct .closeParen ∧
      AreArguments text code call.args pieces inner := by
  unfold Cursor.isAtInvocation at hat
  split at hat
  case h_2 => cases hat
  rename_i name line start stop p rest hahead
  have hp : p.lexeme = .punct .openParen := of_decide_eq_true hat
  obtain ⟨parts, c₂, hname, h⟩ := bind_eq_ok.mp h
  have hparts : Token.dottedParts (p :: rest) = [] :=
    dottedParts_of_head (decide_eq_false (by rw [hp]; simp))
  have hpath : parts = [name] ∧ c.Passes [⟨.ident name, line, start, stop⟩] c₂ := by
    obtain ⟨source, passed, ahead⟩ := c
    obtain rfl : ahead = _ := hahead
    have hread := dottedName_eq (t := ⟨.ident name, line, start, stop⟩) rfl
      "a task or function name" source passed (p :: rest)
    cases hname.symm.trans hread
    rw [hparts]
    exact ⟨rfl, rfl, rfl⟩
  obtain ⟨rfl, hpath⟩ := hpath
  obtain ⟨_, c₃, hmark, h⟩ := bind_eq_ok.mp h
  obtain ⟨_, hparen, p', rfl, hp'⟩ := takes_mark _ _ _ _ hmark
  obtain ⟨found, c₄, haccept, h⟩ := bind_eq_ok.mp h
  obtain ⟨used, hclose, hfound⟩ := takes_accept _ _ _ haccept
  rcases hfound with ⟨rfl, q, rfl, hq⟩ | ⟨rfl, rfl⟩
  · cases h
    exact ⟨_, p', [], q, [], (hpath.trans hparen).trans hclose, rfl, hp', hq, .nil, rfl⟩
  · obtain ⟨_, c₅, hget, h⟩ := bind_eq_ok.mp h
    cases hget
    obtain ⟨args, c₅, hargs, hlast⟩ := bind_eq_ok.mp h
    cases hlast
    have hc₄ := ((hc.passes hpath).passes hparen).passes hclose
    obtain ⟨used, hused, pieces, inner, q, rfl, hq, -, hpieces⟩ :=
      takes_pieces hcode _ hc₄ args c₁ hargs
    exact ⟨_, p', inner, q, pieces, ((hpath.trans hparen).trans hclose).trans hused, rfl, hp', hq,
      hpieces⟩

end Reading

end PipelineScript
