import Mathlib
import PipelineScript.Proofs.Guarded.Following
import PipelineScript.Proofs.Statement.Following
import PipelineScript.Proofs.Token.Tiling

/-! # Cutting out expressions

The tokens of a text stand where it can be cut, one behind the other. So every expression that a
parser cuts out is there. Its counts of brackets never fall below zero: a bracket that closes
without having been opened ends the expression before it is counted. -/

namespace PipelineScript.Parsing

open Guarded

variable {text : List Char} {tokens : List Token} {α : Type} {low place : Nat}

/-- The tokens stand in the text, one behind the other. -/
structure Placed (text : List Char) (tokens : List Token) : Prop where
  divides : ∀ t ∈ tokens, Text.Divides t.start text ∧ Text.Divides t.stop text ∧ t.start ≤ t.stop
  ordered : tokens.Pairwise fun t u => t.stop ≤ u.start

theorem Placed.filter (h : Placed text tokens) (p : Token → Bool) :
    Placed text (tokens.filter p) :=
  ⟨fun t ht => h.divides t (List.mem_of_mem_filter ht), h.ordered.filter p⟩

theorem placed_of_ofChars (h : Token.ofChars text = .ok tokens) : Placed text tokens := by
  have hscan : Token.scan (1 + Text.newlines []) (Text.utf8Length []) text = .ok tokens := by
    unfold Token.ofChars at h
    cases hcheck : Balance.check text with
    | error fault => rw [hcheck] at h; cases h
    | ok _ => rw [hcheck] at h; exact h
  have htiles := Token.tiles_of_scan hscan
  refine ⟨fun t ht => ?_, htiles.pairwise.imp fun h => h.2⟩
  obtain ⟨before, piece, after, htext, -, hstart, hstop, -⟩ := htiles.exists_piece t ht
  rw [List.nil_append] at htext
  refine ⟨⟨before, piece ++ after, by rw [htext, List.append_assoc], hstart⟩,
    ⟨before ++ piece, after, htext, hstop⟩, ?_⟩
  rw [hstart, hstop, Text.utf8Length_append]
  exact Nat.le_add_right _ _

/-- A token does not stop before an earlier one starts. -/
theorem Placed.start_le_stop (h : Placed text tokens) {i j : Nat} {t u : Token}
    (ht : tokens[i]? = some t) (hu : tokens[j]? = some u) (hij : i ≤ j) : t.start ≤ u.stop := by
  have htspan := (h.divides t (List.mem_of_getElem? ht)).2.2
  obtain rfl | hlt := Nat.eq_or_lt_of_le hij
  · cases ht.symm.trans hu
    exact htspan
  · have huspan := (h.divides u (List.mem_of_getElem? hu)).2.2
    obtain ⟨hi, rfl⟩ := List.getElem?_eq_some_iff.mp ht
    obtain ⟨hj, rfl⟩ := List.getElem?_eq_some_iff.mp hu
    exact htspan.trans ((List.pairwise_iff_getElem.mp h.ordered i j hi hj hlt).trans huspan)

/-- The tokens from one place up to another. -/
def between (tokens : List Token) (start stop : Nat) : List Token := (tokens.take stop).drop start

theorem Placed.sourceBetween?_eq (h : Placed text tokens) {start stop : Nat}
    (hstop : stop ≤ tokens.length) : sourceBetween? text tokens start stop place =
      .ok (Cursor.sourceOf? text (between tokens start stop), place) := by
  unfold sourceBetween?
  by_cases hle : stop ≤ start
  · have hnone : between tokens start stop = [] := by
      rw [between, List.drop_eq_nil_of_le]
      rw [List.length_take]
      omega
    rw [if_pos hle, hnone]
    rfl
  · obtain ⟨first, hfirst⟩ : ∃ first, tokens[start]? = some first :=
      ⟨_, List.getElem?_eq_getElem (by omega)⟩
    obtain ⟨last, hlast⟩ : ∃ last, tokens[stop - 1]? = some last :=
      ⟨_, List.getElem?_eq_getElem (by omega)⟩
    have hhead : (between tokens start stop).head? = some first := by
      rw [between, List.head?_drop, List.getElem?_take_of_lt (by omega), hfirst]
    have hend : (between tokens start stop).getLast? = some last := by
      rw [between, List.getLast?_drop, if_neg (by rw [List.length_take]; omega), List.getLast?_take,
        if_neg (by omega), hlast]
      rfl
    have hbytes : first.start ≤ last.stop := h.start_le_stop hfirst hlast (by omega)
    have hcut := Text.between?_of_divides (h.divides first (List.mem_of_getElem? hfirst)).1
      (h.divides last (List.mem_of_getElem? hlast)).2.1 hbytes
    rw [if_neg hle, Cursor.sourceOf?, hhead, hend, bind_of_ok (at_eq hfirst),
      bind_of_ok (minus_eq (by omega)), bind_of_ok (at_eq hlast), hcut]
    rfl

/-! ## Expressions -/

/-- Outside of brackets none closes: it would end the expression. -/
theorem depthAfter_eq {depth : Nat} {t : Token} (h : depth = 0 → t.closes = false) :
    depthAfter depth t place = .ok (t.depthAfter depth, place) := by
  unfold depthAfter Token.depthAfter
  by_cases ho : t.opens = true
  · rw [if_pos ho, if_pos ho]
    rfl
  rw [if_neg ho, if_neg ho]
  by_cases hc : t.closes = true
  · have hpos : 1 ≤ depth := Nat.one_le_iff_ne_zero.mpr fun h0 => by rw [h h0] at hc; cases hc
    rw [if_pos hc, if_pos hc]
    exact minus_eq hpos
  · rw [if_neg hc, if_neg hc]
    rfl

theorem passExpression_eq (stop : Token → Bool) {turns : Nat} (depth : Nat)
    (hturns : tokens.length - place < turns) :
    passExpression tokens stop turns depth place =
      .ok ((), place + Token.expressionLength stop depth (tokens.drop place)) := by
  induction turns generalizing place depth with
  | zero => exact absurd hturns (Nat.not_lt_zero _)
  | succ turns ih =>
    unfold passExpression
    rw [bind_of_ok peek_eq]
    cases h : tokens.drop place with
    | nil =>
      rw [getElem?_of_drop h]
      rfl
    | cons t rest =>
      have hlt := lt_of_drop h
      rw [getElem?_of_drop h, Token.expressionLength]
      show (if depth = 0 ∧ (t.endsExpression || stop t) = true then _ else _ :
        Parsing Unit) place = _
      by_cases hend : depth = 0 ∧ (t.endsExpression || stop t) = true
      · rw [if_pos hend, if_pos hend]
        rfl
      · have hdepth : depthAfter depth t place = .ok (t.depthAfter depth, place) := by
          refine depthAfter_eq fun h0 => Bool.eq_false_iff.mpr fun hc => hend ⟨h0, ?_⟩
          rw [Token.endsExpression, hc, Bool.or_true, Bool.true_or]
        have hrest := ih (t.depthAfter depth) (show tokens.length - (place + 1) < turns by omega)
        rw [drop_succ h] at hrest
        rw [if_neg hend, if_neg hend, bind_of_ok hdepth]
        refine hrest.trans ?_
        rw [Nat.add_assoc, Nat.add_comm 1]

/-- Only where there is a token, there is a text. -/
theorem Placed.sourceBetween_bind (hp : Placed text tokens) (h : place ≤ tokens.length)
    {start stop : Nat} (hstop : stop ≤ tokens.length) {cause : StatementCause}
    {f : SourceExpr → Parsing α} {g : SourceExpr → Reading α}
    (hf : start < stop → ∀ e, Follows text tokens low place (f e) (g e)) :
    Follows text tokens low place (sourceBetween text tokens start stop cause >>= f)
      (Reading.sourceOf (between tokens start stop) cause >>= g) := by
  have hsource : sourceBetween text tokens start stop cause place =
      (Cursor.sourceOf? text (between tokens start stop)).elim (fail tokens cause) pure place := by
    unfold sourceBetween
    rw [bind_of_ok (hp.sourceBetween?_eq hstop)]
    cases Cursor.sourceOf? text (between tokens start stop) <;> rfl
  have hread := Reading.sourceOf_eq (between tokens start stop) cause (standing text tokens place)
  have htext : (standing text tokens place).source = text := rfl
  rw [htext] at hread
  cases hfound : Cursor.sourceOf? text (between tokens start stop) with
  | none =>
    rw [hfound] at hsource hread
    refine .error (bind_of_error (hsource.trans (fail_eq text h cause))) ?_
    show (Reading.sourceOf _ _ _ >>= fun x => g x.1 x.2) = _
    rw [hread]
    rfl
  | some e =>
    have hlt : start < stop := by
      refine Nat.lt_of_not_le fun hle => ?_
      have hnone : between tokens start stop = [] := by
        rw [between, List.drop_eq_nil_of_le]
        rw [List.length_take]
        omega
      rw [hnone] at hfound
      cases hfound
    rw [hfound] at hsource hread
    exact .step hsource hread (Nat.le_refl _) (hf hlt e)

theorem Placed.sourceBetween_follows (hp : Placed text tokens) (h : place ≤ tokens.length)
    {start stop : Nat} (hstop : stop ≤ tokens.length) (hlow : start < stop → low ≤ place)
    (cause : StatementCause) : Follows text tokens low place
      (sourceBetween text tokens start stop cause)
      (Reading.sourceOf (between tokens start stop) cause) := by
  rw [← bind_pure (sourceBetween text tokens start stop cause),
    ← bind_pure (Reading.sourceOf (between tokens start stop) cause)]
  exact hp.sourceBetween_bind h hstop fun hlt e => .pure e (hlow hlt) h

theorem between_eq (start n : Nat) :
    between tokens start (start + n) = (tokens.drop start).take n := by
  rw [between, List.drop_take, Nat.add_sub_cancel_left]

theorem expressionPlaces_eq (stop : Token → Bool) : expressionPlaces tokens stop place =
    .ok ((place, place + Token.expressionLength stop 0 (tokens.drop place)),
      place + Token.expressionLength stop 0 (tokens.drop place)) := by
  show (passExpression tokens stop (turns tokens) 0 >>= fun _ => get >>= fun stop =>
    pure (place, stop)) place = _
  rw [bind_of_ok (passExpression_eq stop 0 (lt_turns place))]
  rfl

theorem expressionTokens_eq (stop : Token → Bool) :
    Reading.expressionTokens stop (standing text tokens place) =
      .ok (between tokens place (place + Token.expressionLength stop 0 (tokens.drop place)),
        standing text tokens (place + Token.expressionLength stop 0 (tokens.drop place))) := by
  rw [between_eq, ← advance_standing]
  rfl

theorem expressionLength_le (stop : Token → Bool) (h : place ≤ tokens.length) :
    place + Token.expressionLength stop 0 (tokens.drop place) ≤ tokens.length := by
  have hle := Token.expressionLength_le stop 0 (tokens.drop place)
  rw [List.length_drop] at hle
  omega

theorem Placed.expression_follows (hp : Placed text tokens) (h : place ≤ tokens.length)
    (stop : Token → Bool) (what : String) : Follows text tokens (place + 1) place
      (expression text tokens stop what) (Reading.expression stop what) := by
  have hlen := expressionLength_le stop h
  unfold expression Reading.expression
  exact .step (expressionPlaces_eq stop) (expressionTokens_eq stop) (Nat.le_add_right _ _)
    (hp.sourceBetween_follows hlen hlen (fun hlt => hlt) _)

theorem Placed.restOfStatement_follows (hp : Placed text tokens) (h : place ≤ tokens.length)
    (what : String) : Follows text tokens (place + 1) place
      (restOfStatement text tokens what) (Reading.restOfStatement what) :=
  hp.expression_follows h _ what

/-! ## Parentheses -/

theorem passParenthesized_eq {what : String} {turns : Nat} (depth : Nat)
    (hturns : tokens.length - place < turns) (h : place ≤ tokens.length) :
    passParenthesized tokens what turns depth place =
      match Token.closingDistance? depth (tokens.drop place) with
      | some n => .ok ((), place + n)
      | none => (fail tokens (.openParenthesis what) : Parsing Unit) tokens.length := by
  induction turns generalizing place depth with
  | zero => exact absurd hturns (Nat.not_lt_zero _)
  | succ turns ih =>
    unfold passParenthesized
    rw [bind_of_ok peek_eq]
    cases hdrop : tokens.drop place with
    | nil =>
      have hend : place = tokens.length := by
        have hlen := List.drop_eq_nil_iff.mp hdrop
        omega
      rw [getElem?_of_drop hdrop, ← hend]
      rfl
    | cons t rest =>
      have hlt := lt_of_drop hdrop
      have hmoved (depth : Nat) : passParenthesized tokens what turns depth (place + 1) =
          match (Token.closingDistance? depth rest).map (· + 1) with
          | some n => .ok ((), place + n)
          | none => (fail tokens (.openParenthesis what) : Parsing Unit) tokens.length := by
        have hrest := ih depth (show tokens.length - (place + 1) < turns by omega) (by omega)
        rw [drop_succ hdrop] at hrest
        rw [hrest]
        cases Token.closingDistance? depth rest with
        | none => rfl
        | some n =>
          show Except.ok ((), place + 1 + n) = Except.ok ((), place + (n + 1))
          rw [Nat.add_assoc, Nat.add_comm 1]
      rw [getElem?_of_drop hdrop, Token.closingDistance?]
      show (if t.isPunct .openParen = true then _ else if t.isPunct .closeParen = true then _
        else _ : Parsing Unit) place = _
      by_cases hopen : t.isPunct .openParen = true
      · have hclose : ¬ t.isPunct .closeParen = true := by
          rw [Token.isPunct, of_decide_eq_true hopen]
          decide
        rw [if_pos hopen, if_neg hclose, if_pos hopen]
        exact hmoved (depth + 1)
      · rw [if_neg hopen, if_neg hopen]
        by_cases hclose : t.isPunct .closeParen = true
        · rw [if_pos hclose, if_pos hclose]
          by_cases hdepth : depth = 0
          · rw [if_pos hdepth, if_pos hdepth]
            rfl
          · rw [if_neg hdepth, if_neg hdepth, bind_of_ok (minus_eq (by omega))]
            exact hmoved (depth - 1)
        · rw [if_neg hclose, if_neg hclose]
          exact hmoved depth

theorem Placed.parenthesized_follows (hp : Placed text tokens) (h : place ≤ tokens.length)
    (what : String) : Follows text tokens (place + 1) place (parenthesized text tokens what)
      (Reading.parenthesized what) := by
  unfold parenthesized Reading.parenthesized
  refine (mark_follows h _ _).bind fun _ start hlow _ hstart => get_bind (place_bind ?_)
  have hpass : passParenthesized tokens what (turns tokens) 0 start = _ :=
    passParenthesized_eq 0 (lt_turns start) hstart
  have hahead : (standing text tokens start).ahead = tokens.drop start := rfl
  rw [hahead]
  cases hn : Token.closingDistance? 0 (tokens.drop start) with
  | none =>
    have hend : start + (tokens.drop start).length = tokens.length := by
      rw [List.length_drop]
      omega
    rw [hn] at hpass
    refine .error (bind_of_error (hpass.trans (fail_eq text (Nat.le_refl _) _))) ?_
    rw [← hend, ← advance_standing]
    rfl
  | some n =>
    have hlt := Token.closingDistance?_lt hn
    rw [List.length_drop] at hlt
    obtain ⟨t, ht⟩ : ∃ t, tokens[start + n]? = some t := ⟨_, List.getElem?_eq_getElem (by omega)⟩
    have htake : Reading.take n (standing text tokens start) =
        .ok (between tokens start (start + n), standing text tokens (start + n)) := by
      rw [between_eq, ← advance_standing]
      rfl
    rw [hn] at hpass
    refine .step hpass htake (Nat.le_add_right _ _) (place_bind ?_)
    refine hp.sourceBetween_bind (by omega) (by omega) fun _ inner => ?_
    exact advance_bind ht (.pure inner (by omega) (by omega))

/-! ## Calls -/

theorem Placed.arguments_follows (hp : Placed text tokens) (h : place ≤ tokens.length)
    {turns fuel : Nat} (hturns : tokens.length - place < turns)
    (hfuel : tokens.length - place ≤ fuel) : Follows text tokens place place
      (arguments text tokens turns) (Reading.arguments fuel) := by
  induction turns generalizing place fuel with
  | zero => exact absurd hturns (Nat.not_lt_zero _)
  | succ turns ih =>
    refine .turn h hfuel (fun _ => rfl) fun fuel hfuel => ?_
    unfold arguments Reading.arguments
    refine (hp.expression_follows h _ _).bind fun arg next hlow _ hnext => ?_
    refine accept_bind (fun hlt => ?_) ?_
    · exact (ih hlt (by omega) (by omega)).bind fun more last _ hlast hend =>
        .pure _ (by omega) hend
    · exact (mark_follows hnext _ _).bind fun _ last hlast _ hend => .pure _ (by omega) hend

theorem Placed.invocation_follows (hp : Placed text tokens) (h : place ≤ tokens.length) :
    Follows text tokens (place + 1) place (invocation text tokens) Reading.invocation := by
  unfold invocation Reading.invocation
  refine (dottedName_follows h _).bind fun parts next hlow _ hnext => ?_
  refine (mark_follows hnext _ _).bind fun _ next₁ hlow₁ _ hnext₁ => ?_
  refine accept_bind (fun hlt => ?_) (get_bind ?_)
  · exact .pure _ (by omega) hlt
  · refine (hp.arguments_follows hnext₁ (lt_turns next₁) length_ahead.ge).bind ?_
    exact fun args last _ _ hend => .pure _ (by omega) hend

/-! ## What is stored -/

theorem isAtInvocation_standing : (standing text tokens place).isAtInvocation =
    (tokens[place]?.any isName && tokens[place + 1]?.any fun t => t.isPunct .openParen) := by
  have hahead : (standing text tokens place).ahead = tokens.drop place := rfl
  have hfirst : tokens[place]? = tokens[place + 0]? := rfl
  unfold Cursor.isAtInvocation
  rw [hahead, hfirst]
  cases hdrop : tokens.drop place with
  | nil => rw [getElem?_of_drop hdrop]; rfl
  | cons t rest =>
    rw [getElem?_of_drop hdrop, getElem?_of_drop hdrop]
    obtain ⟨lexeme, _, _, _⟩ := t
    cases rest with
    | nil => cases lexeme <;> rfl
    | cons u rest => cases lexeme <;> rfl

theorem isCallAhead_eq :
    isCallAhead tokens place = .ok ((standing text tokens place).isAtInvocation, place) := by
  rw [isAtInvocation_standing]
  rfl

/-- A call that fills the rest of the statement is found by both. -/
theorem Placed.bareCall?_eq (hp : Placed text tokens) (h : place ≤ tokens.length)
    (hcall : (standing text tokens place).isAtInvocation = true) :
    bareCall? text tokens place = .ok (none, place) ∧
        Statement.bareCall? (standing text tokens place) = none ∨
      ∃ source next, place + 1 ≤ next ∧ next ≤ tokens.length ∧
        bareCall? text tokens place = .ok (some source, next) ∧
        Statement.bareCall? (standing text tokens place) =
          some (source, standing text tokens next) := by
  have hfollows := hp.invocation_follows h
  unfold Follows at hfollows
  cases hcall' : Reading.invocation (standing text tokens place) with
  | error d =>
    -- a fault in the call is no find
    rw [hcall'] at hfollows
    have hnone : lookAhead (invocation text tokens) place = .ok (none, place) := by
      rw [lookAhead, show invocation text tokens place = .error (.inr d) from hfollows]
    refine .inl ⟨?_, ?_⟩
    · unfold bareCall?
      exact (bind_of_ok get_eq).trans (bind_of_ok hnone)
    · rw [Statement.bareCall?, if_pos hcall, StateT.run, hcall']
  | ok found =>
    obtain ⟨call, c⟩ := found
    rw [hcall'] at hfollows
    obtain ⟨next, hlow, -, hnext, rfl, hp'⟩ := hfollows
    have hsome : lookAhead (invocation text tokens) place = .ok (some (call, next), place) := by
      rw [lookAhead, hp']
    have htokens : (standing text tokens place).ahead.take
        ((standing text tokens place).ahead.length - (standing text tokens next).ahead.length) =
          between tokens place next := by
      rw [length_ahead, length_ahead, between, List.drop_take]
      congr 1
      omega
    have htext : (standing text tokens place).source = text := rfl
    have hparse : bareCall? text tokens place = _ := (bind_of_ok get_eq).trans (bind_of_ok hsome)
    rw [Statement.bareCall?, if_pos hcall, StateT.run, hcall']
    dsimp only at hparse ⊢
    rw [← isEnd_standing, htokens]
    by_cases hend : isEnd tokens[next]? = true
    · rw [if_pos hend] at hparse ⊢
      rw [bind_of_ok (hp.sourceBetween?_eq hnext)] at hparse
      cases hsource : Cursor.sourceOf? text (between tokens place next) with
      | none =>
        rw [hsource] at hparse
        exact .inl ⟨hparse, by rw [htext, hsource]; rfl⟩
      | some e =>
        rw [hsource] at hparse
        exact .inr ⟨_, next, hlow, hnext, hparse, by rw [htext, hsource]; rfl⟩
    · rw [if_neg hend] at hparse ⊢
      exact .inl ⟨hparse, rfl⟩

theorem Placed.stored_follows (hp : Placed text tokens) (h : place ≤ tokens.length) :
    Follows text tokens (place + 1) place (stored text tokens) Statement.readSource := by
  have hvalue : Follows text tokens (place + 1) place (value text tokens)
      (return .expr (← Reading.restOfStatement "a value")) :=
    (hp.restOfStatement_follows h _).bind fun e next hlow _ hnext => .pure _ hlow hnext
  unfold stored Statement.readSource
  refine acceptKeyword_bind (fun hlt => ?_) (get_bind ?_)
  · exact (hp.invocation_follows hlt).bind fun call next hlow _ hnext => .pure _ (by omega) hnext
  · rw [if_neg Bool.false_ne_true]
    cases hcall : (standing text tokens place).isAtInvocation with
    | false =>
      have hnone : Statement.bareCall? (standing text tokens place) = none :=
        if_neg (by rw [hcall]; exact Bool.false_ne_true)
      rw [hnone]
      refine hvalue.of_eq ?_ rfl
      rw [bind_of_ok isCallAhead_eq, hcall]
      rfl
    | true =>
      obtain ⟨hfind, hnone⟩ | ⟨source, next, hlow, hnext, hfind, hsome⟩ := hp.bareCall?_eq h hcall
      · rw [hnone]
        refine hvalue.of_eq ?_ rfl
        rw [bind_of_ok isCallAhead_eq, hcall, if_pos rfl, bind_of_ok hfind]
      · rw [hsome]
        refine ⟨next, hlow, by omega, hnext, rfl, ?_⟩
        rw [bind_of_ok isCallAhead_eq, hcall, if_pos rfl, bind_of_ok hfind]
        rfl

end PipelineScript.Parsing
