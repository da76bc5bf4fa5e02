import PipelineScript.Proofs.Token.Nesting
import PipelineScript.Statement.Cursor

/-! # Where the tokens of a statement are cut

Readers look for the end of an expression by counting brackets of two kinds, or of one. In a text
whose brackets nest, every stretch that they cut out is balanced on its own
(`encloses_take_expressionLength`, `encloses_splitRange?`, `balanced_take_closingDistance?`). -/

namespace PipelineScript.Token

open Lexeme

/-- The brackets among the tokens nest, and none is left open. -/
def Balanced (ts : List Token) : Prop := nest [] (ts.map Token.lexeme) = some []

/-! ## Open brackets -/

/-- What some open brackets accept is accepted with others below them. -/
theorem nestOne_append {stack stack' : List Bracket} {l : Lexeme}
    (h : nestOne stack l = some stack') (outer : List Bracket) :
    nestOne (stack ++ outer) l = some (stack' ++ outer) := by
  cases ho : l.opened? with
  | some b =>
    rw [nestOne_of_opened ho] at h ⊢
    cases h; rfl
  | none =>
    cases hc : l.closed? with
    | some b =>
      rw [nestOne_of_closed hc] at h ⊢
      rw [h]; rfl
    | none =>
      rw [nestOne_of_none ho hc] at h ⊢
      cases h; rfl

theorem nest_append_right {stack stack' : List Bracket} {ls : List Lexeme}
    (h : nest stack ls = some stack') (outer : List Bracket) :
    nest (stack ++ outer) ls = some (stack' ++ outer) := by
  induction ls generalizing stack with
  | nil => cases h; rfl
  | cons l ls ih =>
    obtain ⟨open_, hl, hls⟩ := Option.bind_eq_some_iff.mp h
    rw [nest_cons, nestOne_append hl, Option.bind_some, ih hls]

/-- Brackets that were open below others do not matter before one of them has to close. -/
theorem nestOne_of_append {stack outer all : List Bracket} {l : Lexeme}
    (h : nestOne (stack ++ outer) l = some all)
    (hc : stack = [] → ∀ b, l.closed? = some b → outer.head? ≠ some b) :
    ∃ stack', nestOne stack l = some stack' ∧ all = stack' ++ outer := by
  cases ho : l.opened? with
  | some b =>
    rw [nestOne_of_opened ho] at h
    cases h
    exact ⟨b :: stack, nestOne_of_opened ho stack, rfl⟩
  | none =>
    cases hcl : l.closed? with
    | none =>
      rw [nestOne_of_none ho hcl] at h
      cases h
      exact ⟨stack, nestOne_of_none ho hcl stack, rfl⟩
    | some b =>
      rw [nestOne_of_closed hcl] at h
      cases stack with
      | nil =>
        rw [List.nil_append] at h
        exact absurd (by rw [h]; rfl) (hc rfl b hcl)
      | cons top stack =>
        rw [List.cons_append, List.cons.injEq] at h
        obtain ⟨rfl, rfl⟩ := h
        exact ⟨stack, (nestOne_of_closed hcl).mpr rfl, rfl⟩

/-! ## Balanced stretches -/

theorem balanced_nil : Balanced [] := rfl

theorem Balanced.nest {ts : List Token} (h : Balanced ts) (stack : List Bracket) :
    nest stack (ts.map Token.lexeme) = some stack := nest_append_right h stack

theorem Balanced.append {ts us : List Token} (h : Balanced ts) (h' : Balanced us) :
    Balanced (ts ++ us) := by
  unfold Balanced
  rw [List.map_append, nest_append, h, Option.bind_some]
  exact h'

theorem balanced_singleton {t : Token} (ho : t.lexeme.opened? = none)
    (hc : t.lexeme.closed? = none) : Balanced [t] := by
  unfold Balanced
  rw [List.map_singleton, nest_cons, nestOne_of_none ho hc]
  rfl

theorem Balanced.cons {t : Token} {ts : List Token} (ho : t.lexeme.opened? = none)
    (hc : t.lexeme.closed? = none) (h : Balanced ts) : Balanced (t :: ts) :=
  (balanced_singleton ho hc).append h

/-- A balanced stretch in brackets is balanced. -/
theorem Balanced.enclose {b : Bracket} {first last : Token} {ts : List Token}
    (hfirst : first.lexeme.opened? = some b) (h : Balanced ts)
    (hlast : last.lexeme.closed? = some b) : Balanced (first :: (ts ++ [last])) := by
  unfold Balanced
  rw [List.map_cons, nest_cons, nestOne_of_opened hfirst, Option.bind_some, List.map_append,
    nest_append, h.nest, Option.bind_some, List.map_singleton, nest_cons,
    (nestOne_of_closed hlast).mpr rfl]
  rfl

/-! ## Counting brackets -/

/-- The number of open brackets of some kinds, `n` before a lexeme, behind it. -/
def countAfter (kinds : Bracket → Bool) (n : Nat) (l : Lexeme) : Nat :=
  if l.opened?.any kinds then n + 1 else if l.closed?.any kinds then n - 1 else n

theorem countAfter_countP (kinds : Bracket → Bool) {l : Lexeme} {stack stack' : List Bracket}
    (h : nestOne stack l = some stack') :
    countAfter kinds (stack.countP kinds) l = stack'.countP kinds := by
  unfold countAfter
  cases ho : l.opened? with
  | some b =>
    have hc : l.closed? = none := by
      cases hc : l.closed? with
      | none => rfl
      | some b' => rw [opened?_of_closed hc] at ho; cases ho
    rw [nestOne_of_opened ho] at h
    cases h
    rw [hc, List.countP_cons, Option.any_some]
    cases kinds b <;> rfl
  | none =>
    cases hc : l.closed? with
    | some b =>
      rw [nestOne_of_closed hc] at h
      rw [h, List.countP_cons, Option.any_some]
      cases kinds b <;> rfl
    | none =>
      rw [nestOne_of_none ho hc] at h
      cases h
      rfl

theorem isPunct_of_opened {p : Punct} {b : Bracket} (h : p.opened? = some b) (t : Token) :
    t.isPunct p = t.lexeme.opened?.any (· == b) := by
  obtain ⟨l, _, _, _⟩ := t
  cases l with
  | punct q => cases p <;> cases h <;> cases q <;> rfl
  | _ => rfl

theorem isPunct_of_closed {p : Punct} {b : Bracket} (h : p.closed? = some b) (t : Token) :
    t.isPunct p = t.lexeme.closed?.any (· == b) := by
  obtain ⟨l, _, _, _⟩ := t
  cases l with
  | punct q => cases p <;> cases h <;> cases q <;> rfl
  | _ => rfl

theorem any_round_or_square (o : Option Bracket) :
    (o.any (· == .round) || o.any (· == .square)) = o.any (· != .curly) := by
  cases o with
  | none => rfl
  | some b => cases b <;> rfl

theorem opens_eq (t : Token) : t.opens = t.lexeme.opened?.any (· != .curly) := by
  have hr := isPunct_of_opened (show Punct.opened? .openParen = some .round from rfl) t
  have hs := isPunct_of_opened (show Punct.opened? .openBracket = some .square from rfl) t
  rw [opens, hr, hs, any_round_or_square]

theorem closes_eq (t : Token) : t.closes = t.lexeme.closed?.any (· != .curly) := by
  have hr := isPunct_of_closed (show Punct.closed? .closeParen = some .round from rfl) t
  have hs := isPunct_of_closed (show Punct.closed? .closeBracket = some .square from rfl) t
  rw [closes, hr, hs, any_round_or_square]

theorem depthAfter_eq (n : Nat) (t : Token) :
    t.depthAfter n = countAfter (· != .curly) n t.lexeme := by
  rw [depthAfter, opens_eq, closes_eq]
  rfl

/-! ## Expressions -/

/-- How many of the open brackets are round or square. -/
def depthOf (stack : List Bracket) : Nat := stack.countP (· != .curly)

theorem depthAfter_depthOf {t : Token} {stack stack' : List Bracket}
    (h : nestOne stack t.lexeme = some stack') : t.depthAfter (depthOf stack) = depthOf stack' := by
  rw [depthAfter_eq]
  exact countAfter_countP _ h

/-- Closing brackets and braces end an expression that stands outside of brackets. -/
theorem endsExpression_of_bracket {t : Token} {b : Bracket}
    (h : t.lexeme.closed? = some b ∨ t.lexeme.opened? = some .curly) :
    t.endsExpression = true := by
  obtain ⟨l, _, _, _⟩ := t
  cases l with
  | punct p => cases p <;> first | rfl | (obtain h | h := h <;> cases h)
  | _ => obtain h | h := h <;> cases h

/-- The outermost open bracket is not a brace. -/
def Rooted (stack : List Bracket) : Prop := ∀ b ∈ stack.getLast?, b ≠ .curly

theorem rooted_nil : Rooted [] := by
  intro b hb
  cases hb

theorem Rooted.eq_nil {stack : List Bracket} (h : Rooted stack) (hd : depthOf stack = 0) :
    stack = [] := by
  rcases List.eq_nil_or_concat stack with hs | ⟨below, b, rfl⟩
  · exact hs
  · have hb : b ≠ .curly := h b (by simp)
    have hmem := List.countP_eq_zero.mp hd b (by simp)
    simp [hb] at hmem

theorem Rooted.next {t : Token} {stack stack' : List Bracket} (h : Rooted stack)
    (ht : stack = [] → t.endsExpression = false) (hn : nestOne stack t.lexeme = some stack') :
    Rooted stack' := by
  cases ho : t.lexeme.opened? with
  | some b =>
    rw [nestOne_of_opened ho] at hn
    cases hn
    cases stack with
    | nil =>
      rintro _ hb rfl
      obtain rfl : b = .curly := Option.some.inj hb
      have hends := ht rfl
      rw [endsExpression_of_bracket (b := .curly) (.inr ho)] at hends
      cases hends
    | cons top stack => exact h
  | none =>
    cases hc : t.lexeme.closed? with
    | some b =>
      rw [nestOne_of_closed hc] at hn
      subst hn
      cases stack' with
      | nil => exact rooted_nil
      | cons top stack' => exact h
    | none =>
      rw [nestOne_of_none ho hc] at hn
      cases hn
      exact h

/-- The tokens close the open brackets, and outside of them none of the tokens ends an
expression. -/
inductive Encloses : List Bracket → List Token → Prop
  | done : Encloses [] []
  | token {stack stack' : List Bracket} {t : Token} {ts : List Token} :
      (stack = [] → t.endsExpression = false) → nestOne stack t.lexeme = some stack' →
      Encloses stack' ts → Encloses stack (t :: ts)

theorem Encloses.nest {stack : List Bracket} {ts : List Token} (h : Encloses stack ts) :
    nest stack (ts.map Token.lexeme) = some [] := by
  induction h with
  | done => rfl
  | token _ hn _ ih => rw [List.map_cons, nest_cons, hn, Option.bind_some, ih]

/-- What is ahead closes the brackets that are open in an expression before those outside of it. -/
theorem encloses_take_expressionLength (stop : Token → Bool) (stack : List Bracket)
    {outer : List Bracket} {ts : List Token} (hs : Rooted stack)
    (h : nest (stack ++ outer) (ts.map Token.lexeme) = some []) :
    Encloses stack (ts.take (expressionLength stop (depthOf stack) ts)) := by
  induction ts generalizing stack with
  | nil =>
    obtain ⟨rfl, -⟩ := List.append_eq_nil_iff.mp (Option.some.inj h)
    exact .done
  | cons t ts ih =>
    rw [expressionLength]
    by_cases hstop : depthOf stack = 0 ∧ (t.endsExpression || stop t) = true
    · rw [if_pos hstop, hs.eq_nil hstop.1]
      exact .done
    · rw [if_neg hstop, List.take_succ_cons]
      have hends : stack = [] → t.endsExpression = false := by
        rintro rfl
        rw [not_and, Bool.or_eq_true, not_or, Bool.not_eq_true] at hstop
        exact (hstop rfl).1
      obtain ⟨all, hall, hrest⟩ := Option.bind_eq_some_iff.mp h
      obtain ⟨stack', hn, rfl⟩ := nestOne_of_append hall fun hnil b hb => by
        have he := hends hnil
        rw [endsExpression_of_bracket (.inl hb)] at he
        cases he
      rw [depthAfter_depthOf hn]
      exact .token hends hn (ih _ (hs.next hends hn) hrest)

/-- An expression does not begin with a line end. -/
theorem Encloses.isLineEnd_head? {ts : List Token} (h : Encloses [] ts) :
    ∀ t ∈ ts.head?, t.isLineEnd = false := by
  cases h with
  | done => intro t ht; cases ht
  | token hends _ _ =>
    intro t ht
    cases ht
    have he := hends rfl
    simp only [endsExpression, Bool.or_eq_false_iff] at he
    exact he.1.1.1

/-- An expression does not end with a line end, since no bracket is open there. -/
theorem Encloses.isLineEnd_getLast? {stack : List Bracket} {ts : List Token}
    (h : Encloses stack ts) : ∀ t ∈ ts.getLast?, t.isLineEnd = false := by
  induction h with
  | done => intro t ht; cases ht
  | @token stack stack' t ts hends hn hrest ih =>
    cases hrest with
    | done =>
      intro u hu
      obtain rfl : t = u := Option.some.inj hu
      cases hl : t.isLineEnd with
      | false => rfl
      | true =>
        have hneutral : nestOne stack t.lexeme = some stack := by
          obtain ⟨l, _, _, _⟩ := t
          cases l <;> first | (cases hl; done) | rfl
        obtain rfl : [] = stack := Option.some.inj (hn.symm.trans hneutral)
        have he := hends rfl
        simp [endsExpression, hl] at he
    | token =>
      rw [List.getLast?_cons_cons]
      exact ih

/-- Outside of brackets nothing but the end stops an expression. -/
theorem Encloses.expressionLength_eq {stack : List Bracket} {ts : List Token}
    (h : Encloses stack ts) (hs : Rooted stack) :
    expressionLength (fun _ => false) (depthOf stack) ts = ts.length := by
  induction h with
  | done => rfl
  | @token stack stack' t ts hends hn _ ih =>
    have hgo : ¬(depthOf stack = 0 ∧ (t.endsExpression || false) = true) := by
      rintro ⟨hd, he⟩
      rw [hends (hs.eq_nil hd)] at he
      cases he
    rw [expressionLength, if_neg hgo, depthAfter_depthOf hn, ih (hs.next hends hn),
      List.length_cons]

/-- Cut off, an expression is as long as it was. -/
theorem expressionLength_take (stop : Token → Bool) (depth : Nat) (ts : List Token) :
    expressionLength stop depth (ts.take (expressionLength stop depth ts)) =
      (ts.take (expressionLength stop depth ts)).length := by
  induction ts generalizing depth with
  | nil => rfl
  | cons t ts ih =>
    rw [expressionLength]
    split
    · rfl
    · rename_i hgo
      rw [List.take_succ_cons, expressionLength, if_neg hgo, ih, List.length_cons]

theorem expressionLength_eq_zero {stop : Token → Bool} {us : List Token}
    (h : us.head?.all (fun t => t.endsExpression || stop t) = true) :
    expressionLength stop 0 us = 0 := by
  cases us with
  | nil => rfl
  | cons t us => exact if_pos ⟨rfl, h⟩

/-- Both sides of a range are expressions, and the first one is no range. -/
theorem encloses_splitRange? {stack : List Bracket} {ts before after : List Token}
    {inclusive : Bool} (h : Encloses stack ts) (hs : Rooted stack)
    (hr : splitRange? (depthOf stack) ts = some (before, inclusive, after)) :
    (∃ t, ts = before ++ t :: after) ∧ Encloses stack before ∧
      splitRange? (depthOf stack) before = none ∧ Encloses [] after := by
  induction h generalizing before with
  | done => cases hr
  | @token stack stack' t ts hends hn hrest ih =>
    rw [splitRange?] at hr
    by_cases hop : depthOf stack = 0 ∧ (t.isPunct .rangeThrough || t.isPunct .rangeBelow) = true
    · rw [if_pos hop] at hr
      cases hr
      have hnil := hs.eq_nil hop.1
      have hneutral : nestOne stack t.lexeme = some stack := by
        rcases Bool.or_eq_true_iff.mp hop.2 with ht | ht
        · rw [of_decide_eq_true ht]; rfl
        · rw [of_decide_eq_true ht]; rfl
      rw [hneutral] at hn
      cases hn
      subst hnil
      exact ⟨⟨t, rfl⟩, .done, rfl, hrest⟩
    · rw [if_neg hop, depthAfter_depthOf hn] at hr
      obtain ⟨⟨before', inclusive', after'⟩, hsplit, hout⟩ := Option.map_eq_some_iff.mp hr
      cases hout
      obtain ⟨⟨u, rfl⟩, hbefore, hnone, hafter⟩ := ih (hs.next hends hn) hsplit
      refine ⟨⟨u, rfl⟩, .token hends hn hbefore, ?_, hafter⟩
      rw [splitRange?, if_neg hop, depthAfter_depthOf hn, hnone, Option.map_none]

/-! ## Parentheses -/

theorem closingDistance?_cons (depth : Nat) (t : Token) (ts : List Token) :
    closingDistance? depth (t :: ts) =
      if depth = 0 ∧ t.lexeme.closed? = some .round then some 0
      else (closingDistance? (countAfter (· == .round) depth t.lexeme) ts).map (· + 1) := by
  have ho := isPunct_of_opened (show Punct.opened? .openParen = some .round from rfl) t
  have hc := isPunct_of_closed (show Punct.closed? .closeParen = some .round from rfl) t
  rw [closingDistance?, ho, hc, countAfter]
  cases hcl : t.lexeme.closed? with
  | none => cases t.lexeme.opened?.any (· == .round) <;> simp
  | some b =>
    rw [opened?_of_closed hcl]
    cases b <;> simp

/-- Parentheses that close among the tokens are not the one that is looked for. -/
theorem closingDistance?_through {stack stack' : List Bracket} {ts : List Token}
    (h : nest stack (ts.map Token.lexeme) = some stack') (us : List Token) :
    closingDistance? (stack.countP (· == .round)) (ts ++ us) =
      (closingDistance? (stack'.countP (· == .round)) us).map (ts.length + ·) := by
  induction ts generalizing stack with
  | nil =>
    obtain rfl : stack = stack' := Option.some.inj h
    simp
  | cons t ts ih =>
    obtain ⟨open_, ht, hts⟩ := Option.bind_eq_some_iff.mp h
    have hgo : ¬(stack.countP (· == .round) = 0 ∧ t.lexeme.closed? = some .round) := by
      rintro ⟨hzero, hclosed⟩
      rw [nestOne_of_closed hclosed] at ht
      rw [ht] at hzero
      simp at hzero
    rw [List.cons_append, closingDistance?_cons, if_neg hgo, countAfter_countP _ ht, ih hts,
      Option.map_map]
    congr 1
    funext n
    simp only [Function.comp_apply, List.length_cons]
    omega

/-- Counting only parentheses finds the one that closes, if what is ahead nests. -/
theorem nest_take_closingDistance? (stack : List Bracket) {outer : List Bracket}
    {ts : List Token} {n : Nat}
    (h : nest (stack ++ .round :: outer) (ts.map Token.lexeme) = some [])
    (hd : closingDistance? (stack.countP (· == .round)) ts = some n) :
    nest stack ((ts.take n).map Token.lexeme) = some [] := by
  induction ts generalizing stack n with
  | nil => cases hd
  | cons t ts ih =>
    obtain ⟨all, hall, hrest⟩ := Option.bind_eq_some_iff.mp h
    rw [closingDistance?_cons] at hd
    by_cases hend : stack.countP (· == .round) = 0 ∧ t.lexeme.closed? = some .round
    · rw [if_pos hend] at hd
      cases hd
      rw [nestOne_of_closed hend.2] at hall
      cases stack with
      | nil => rfl
      | cons top stack =>
        -- the innermost open bracket is a parenthesis, but none is open here
        obtain ⟨rfl, -⟩ := List.cons.inj hall
        simp at hend
    · rw [if_neg hend] at hd
      obtain ⟨stack', hn, rfl⟩ := nestOne_of_append hall fun hnil b hb hout => by
        obtain rfl : .round = b := Option.some.inj hout
        exact hend ⟨by rw [hnil]; rfl, hb⟩
      rw [countAfter_countP _ hn] at hd
      obtain ⟨m, hm, rfl⟩ := Option.map_eq_some_iff.mp hd
      rw [List.take_succ_cons, List.map_cons, nest_cons, hn, Option.bind_some, ih _ hrest hm]

/-- What stands in parentheses is balanced if what follows the opening one closes it and what is
open around it. -/
theorem balanced_take_closingDistance? {outer : List Bracket} {ts : List Token} {n : Nat}
    (h : nest (.round :: outer) (ts.map Token.lexeme) = some [])
    (hd : closingDistance? 0 ts = some n) : Balanced (ts.take n) :=
  nest_take_closingDistance? [] h hd

/-! ## Dotted names -/

/-- A dotted name has no brackets. -/
theorem balanced_take_dottedParts (ts : List Token) :
    Balanced (ts.take (2 * (dottedParts ts).length)) := by
  fun_induction dottedParts ts with
  | case1 dot name _ _ _ rest hdot ih =>
    rw [List.length_cons, Nat.mul_add, List.take_succ_cons, List.take_succ_cons]
    refine .cons ?_ ?_ (.cons rfl rfl ih)
    · rw [of_decide_eq_true hdot]; rfl
    · rw [of_decide_eq_true hdot]; rfl
  | case2 => exact balanced_nil
  | case3 => exact balanced_nil

theorem dottedParts_of_head {ts : List Token}
    (h : (ts.head?.any fun t => t.isPunct .dot) = false) : dottedParts ts = [] := by
  match ts with
  | [] => rfl
  | [t] => rfl
  | t :: ⟨l, _, _, _⟩ :: ts =>
    have ht : t.isPunct .dot = false := h
    cases l with
    | ident s => simp [dottedParts, ht]
    | _ => rfl

end PipelineScript.Token
