import Mathlib
import PipelineScript.Proofs.Statement.Cells
import PipelineScript.Proofs.Statement.Names

/-! # Expressions without code

An expression that is left out is an error wherever one has to stand. Main statement: every
expression of a script has code of its own, save that the parentheses of a condition or of a switch
may hold line ends alone (`Statement.blank_of_ofSource`). -/

namespace PipelineScript

namespace SourceExpr

/-- The tokens that the text has on its own are line ends and comments only. -/
def Blank (e : SourceExpr) : Prop :=
  ∃ own, Token.ofSource e.source = .ok own ∧ ∀ t ∈ own, t.lexeme.isCode = false

variable {stop : Token → Bool} {e : SourceExpr} {own : List Token}

/-- A token that is code is enough. -/
theorem not_blank (hown : Token.ofSource e.source = .ok own) {t : Token} (ht : t ∈ own)
    (hcode : t.lexeme.isCode = true) : ¬ e.Blank := by
  rintro ⟨own', hown', hblank⟩
  obtain rfl := Except.ok.inj (hown.symm.trans hown')
  rw [hblank t ht] at hcode
  cases hcode

/-- The first token of an expression does not end it, and so it is code. -/
theorem Fills.not_blank (h : e.Fills stop own) : ¬ e.Blank := by
  have hlength := h.length
  cases htokens : Token.uncommented own with
  | nil =>
    have hslice := h.slice
    rw [htokens] at hslice
    cases hslice
  | cons t rest =>
    rw [htokens, Token.expressionLength, List.length_cons] at hlength
    split at hlength
    · cases hlength
    · rename_i hgoes
      obtain ⟨hmem, hcomment⟩ := List.mem_filter.mp (htokens ▸ List.mem_cons_self)
      have hline : t.isLineEnd = false := by
        cases hline : t.isLineEnd with
        | false => rfl
        | true => exact absurd ⟨rfl, by simp [Token.endsExpression, hline]⟩ hgoes
      have hend : t.lexeme.isLineEnd = false := hline
      exact SourceExpr.not_blank h.tokens hmem (by simp [Lexeme.isCode, hend, hcomment])

theorem Before.not_blank (h : e.Before stop) : ¬ e.Blank :=
  h.elim fun _ hown => hown.not_blank

end SourceExpr

/-! ## Where an expression may be blank -/

theorem Invocation.Printable.not_blank {call : Invocation} (h : call.Printable) :
    ∀ e ∈ call.args, ¬ e.Blank :=
  fun e he => (h.args e he).not_blank

/-- A name is code. -/
theorem SourceExpr.not_blank_of_isAtInvocation {e : SourceExpr} {own : List Token}
    (hown : Token.ofSource e.source = .ok own) (h : (e.cursor own).isAtInvocation = true) :
    ¬ e.Blank := by
  unfold Cursor.isAtInvocation at h
  split at h
  · rename_i name line start stop next rest hahead
    have hrow : Token.uncommented own = ⟨.ident name, line, start, stop⟩ :: next :: rest := hahead
    have hmem : ⟨.ident name, line, start, stop⟩ ∈ Token.uncommented own :=
      hrow ▸ List.mem_cons_self
    exact not_blank hown (List.mem_filter.mp hmem).1 rfl
  · cases h

/-- A call that stands alone begins with a name, and its arguments are read like those of any
other. -/
theorem Statement.not_blank_of_bareCall? {e : SourceExpr} {own : List Token} {call : Invocation}
    {c : Cursor} (hown : e.Owns own) (h : bareCall? (e.cursor own) = some (.invoke call e, c)) :
    ¬ e.Blank ∧ ∀ arg ∈ call.args, ¬ arg.Blank := by
  obtain ⟨hat, _, _, heq, hcall, -⟩ := bareCall?_eq_some_iff.mp h
  cases heq
  obtain ⟨-, -, hprintable⟩ := Reading.yields_invocation (Reading.coded_of_owns hown)
    (e.cursor own) ⟨rfl, List.suffix_refl _⟩ call c hcall
  exact ⟨SourceExpr.not_blank_of_isAtInvocation hown.tokens hat, hprintable.not_blank⟩

theorem Source.Printable.not_blank {s : Source} (h : s.Printable) :
    ∀ e ∈ s.expressions, ¬ e.Blank := by
  cases s with
  | expr e =>
    obtain ⟨own, hown, -⟩ := h
    exact List.forall_mem_singleton.mpr hown.not_blank
  | run call => exact Invocation.Printable.not_blank h
  | invoke call e =>
    obtain ⟨own, c, hown, hcall, -⟩ := h
    obtain ⟨he, hargs⟩ := Statement.not_blank_of_bareCall? hown hcall
    exact List.forall_mem_cons.mpr ⟨he, hargs⟩

theorem Iterable.Printable.not_blank {i : Iterable} (h : i.Printable) :
    ∀ e ∈ i.expressions, ¬ e.Blank := by
  cases i with
  | range start stop inclusive =>
    obtain ⟨⟨own, hown, -⟩, hstop⟩ := h
    exact List.forall_mem_cons.mpr ⟨hown.not_blank, List.forall_mem_singleton.mpr hstop.not_blank⟩
  | each e =>
    obtain ⟨own, hown, -⟩ := h
    exact List.forall_mem_singleton.mpr hown.not_blank

namespace Kind

/-- The expression of a statement of the kind stands in parentheses. -/
def Encloses (k : Kind) (e : SourceExpr) : Prop :=
  k = .branch e ∨ k = .switch e ∨ k = .whileLoop e

/-- Outside of such parentheses no expression is blank. -/
theorem Printable.encloses {k : Kind} (h : k.Printable) :
    ∀ e ∈ k.expressions, e.Blank → k.Encloses e := by
  have hnone {es : List SourceExpr} (hes : ∀ e ∈ es, ¬ e.Blank) :
      ∀ e ∈ es, e.Blank → k.Encloses e := fun e he hblank => absurd hblank (hes e he)
  cases k with
  | declare name declaredType value =>
    refine hnone fun e he => ?_
    obtain ⟨s, hs, he⟩ := List.mem_flatMap.mp he
    exact (h.2.2 s (Option.mem_toList.mp hs)).not_blank e he
  | assign name value => exact hnone h.2.not_blank
  | run call => exact hnone (Invocation.Printable.not_blank h)
  | call call => exact hnone h.2.not_blank
  | taskBlock target tasks =>
    refine hnone fun e he => ?_
    obtain ⟨entry, hentry, he⟩ := List.mem_flatMap.mp he
    exact (h.2.2 entry hentry).not_blank e he
  | exportValue e => exact hnone (List.forall_mem_singleton.mpr h.not_blank)
  | echo e => exact hnone (List.forall_mem_singleton.mpr h.not_blank)
  | case_ e => exact hnone (List.forall_mem_singleton.mpr h.not_blank)
  | forLoop variable_ iterable => exact hnone h.2.not_blank
  | returnValue value =>
    exact hnone fun e he => (h e (Option.mem_toList.mp he)).not_blank
  | branch e => exact List.forall_mem_singleton.mpr fun _ => .inl rfl
  | switch e => exact List.forall_mem_singleton.mpr fun _ => .inr (.inl rfl)
  | whileLoop e => exact List.forall_mem_singleton.mpr fun _ => .inr (.inr rfl)
  | _ => exact List.forall_mem_nil _

end Kind

/-! ## What a blank expression is read from -/

namespace Token

/-- Line ends in a row, of which there is one at least. -/
def LineEnds (range : List Token) : Prop := range ≠ [] ∧ ∀ t ∈ range, t.isLineEnd = true

theorem code_eq_nil_iff {ts : List Token} : code ts = [] ↔ ∀ t ∈ ts, t.lexeme.isCode = false := by
  simp [code, List.filter_eq_nil_iff]

theorem lineEnds_of_code {text : List Char} {tokens range : List Token} {e : SourceExpr}
    (hrange : range <:+: uncommented tokens) (he : Cursor.sourceOf? text range = some e)
    (hcode : code range = []) : LineEnds range := by
  refine ⟨fun hnil => ?_, fun t ht => ?_⟩
  · subst hnil
    cases he
  · have hcomment := (List.mem_filter.mp (hrange.subset ht)).2
    rw [Token.isLineEnd]
    simpa [Lexeme.isCode, hcomment] using code_eq_nil_iff.mp hcode t ht

end Token

namespace Reading

theorem bind_of_ok {α β : Type} {r : Reading α} {f : α → Reading β} {c c' : Cursor} {a : α}
    (h : r c = .ok (a, c')) : (r >>= f) c = f a c' := by
  show (r c >>= fun s => f s.1 s.2) = _
  rw [h]
  rfl

/-- What stands in parentheses is read even if it is line ends alone, and it is an error if there is
nothing in them. -/
def ReadsLineEnds (r : Reading SourceExpr) (fault : StatementCause) (text : List Char) : Prop :=
  ∀ (passed ends rest : List Token) (left right : Token), left.isPunct .openParen = true →
    right.isPunct .closeParen = true → (∀ t ∈ ends, t.isLineEnd = true) →
    r ⟨text, passed, left :: (ends ++ right :: rest)⟩ =
      match Cursor.sourceOf? text ends with
      | some e => .ok (e, ⟨text, right :: (ends.reverse ++ left :: passed), rest⟩)
      | none => .error (Cursor.diagnose ⟨text, left :: passed, ends ++ right :: rest⟩ fault)

theorem readsLineEnds_parenthesized (what : String) (text : List Char) :
    ReadsLineEnds (parenthesized what) (.emptyParentheses what) text := by
  intro passed ends rest left right hleft hright hends
  have hbalanced : Token.Balanced ends := by
    have hcode : Token.code ends = Token.code [] :=
      Token.code_eq_nil_iff.mpr fun t ht => by
        simp [Lexeme.isCode, show t.lexeme.isLineEnd = true from hends t ht]
    exact (Token.balanced_iff hcode).mpr rfl
  have hdistance : Token.closingDistance? 0 (ends ++ right :: rest) = some ends.length := by
    rw [hbalanced.closingDistance?, Token.closingDistance?, if_pos hright, if_pos rfl]
    rfl
  have hmark : mark .openParen s!"'(' before the {what}"
      ⟨text, passed, left :: (ends ++ right :: rest)⟩ =
        .ok ((), ⟨text, left :: passed, ends ++ right :: rest⟩) := by
    rw [Filling.mark_eq, if_pos (by simpa [Cursor.isAtMark, Cursor.head?] using hleft)]
    rfl
  have htake : take ends.length ⟨text, left :: passed, ends ++ right :: rest⟩ =
      .ok (ends, ⟨text, ends.reverse ++ left :: passed, right :: rest⟩) := by
    have hmoved : Cursor.advance ⟨text, left :: passed, ends ++ right :: rest⟩ ends.length =
        ⟨text, ends.reverse ++ left :: passed, right :: rest⟩ := by
      rw [Cursor.advance, List.take_left, List.drop_left]
    show Except.ok (List.take _ (ends ++ right :: rest), Cursor.advance _ _) = _
    rw [List.take_left, hmoved]
  have hget : (get : Reading Cursor) ⟨text, left :: passed, ends ++ right :: rest⟩ =
      .ok (⟨text, left :: passed, ends ++ right :: rest⟩,
        ⟨text, left :: passed, ends ++ right :: rest⟩) := rfl
  unfold parenthesized
  rw [bind_of_ok hmark, bind_of_ok hget]
  dsimp only
  rw [hdistance]
  dsimp only
  rw [bind_of_ok htake]
  cases he : Cursor.sourceOf? text ends with
  | some e =>
    have hread : sourceOf ends (.emptyParentheses what)
        ⟨text, ends.reverse ++ left :: passed, right :: rest⟩ =
          .ok (e, ⟨text, ends.reverse ++ left :: passed, right :: rest⟩) :=
      sourceOf_eq_ok.mpr ⟨he, rfl⟩
    rw [bind_of_ok hread]
    rfl
  | none =>
    cases ends with
    | nil => rfl
    | cons t ends => simp [Cursor.sourceOf?, List.getLast?_cons] at he

end Reading

namespace Statement

/-- An expression of a script has code of its own, or it is what stands in the parentheses of a
condition or of a switch, which hold line ends alone. All such parentheses are read. -/
theorem blank_of_ofSource {source : String} {nodes : List Statement}
    (h : ofSource source = .ok nodes) :
    (∃ tokens, Token.ofSource source = .ok tokens ∧ ∀ s ∈ nodes, s.Every fun k =>
      ∀ e ∈ k.expressions, ∃ own, Token.ofSource e.source = .ok own ∧
        ((∃ t ∈ own, t.lexeme.isCode = true) ∨
          k.Encloses e ∧ ∃ range, range <:+: Token.uncommented tokens ∧ Token.LineEnds range ∧
            Cursor.sourceOf? source.toList range = some e)) ∧
    ∀ what, Reading.ReadsLineEnds (Reading.parenthesized what) (.emptyParentheses what)
      source.toList := by
  obtain ⟨tokens, htokens, hcuts⟩ := cut_of_ofSource h
  refine ⟨⟨tokens, htokens, fun s hs => ?_⟩,
    fun what => Reading.readsLineEnds_parenthesized what _⟩
  have hkinds := (printable_of_ofSource h s hs).every
  refine (hkinds.and (every_of_expressionsOf nodes hcuts s hs)).mono fun k hk e he => ?_
  have hcut := hk.2 e he
  obtain ⟨own, hown⟩ := Token.exists_ofSource_of_cut htokens hcut
  obtain ⟨range, hrange, -, hsource⟩ := hcut
  refine ⟨own, hown, ?_⟩
  by_cases hblank : ∀ t ∈ own, t.lexeme.isCode = false
  · refine .inr ⟨hk.1.encloses e he ⟨own, hown, hblank⟩, range, hrange, ?_, hsource⟩
    have hcode := Token.code_eq_of_sourceOf? htokens hrange hsource hown
    rw [Token.code_eq_nil_iff.mpr hblank] at hcode
    exact Token.lineEnds_of_code hrange hsource hcode.symm
  · push Not at hblank
    obtain ⟨t, ht, hcode⟩ := hblank
    exact .inl ⟨t, ht, by simpa using hcode⟩

theorem blank_of_ofSource_layouts :
    let source := "while (; // on\n) \x7b\nf((1 // one\n), [\n])\n\x7d"
    let nodes := [ofBlock (.whileLoop ⟨"; // on"⟩) 1 [
      ofLine (.call ⟨"f", [⟨"(1 // one\n)"⟩, ⟨"[\n]"⟩]⟩) 3]]
    ofSource source = .ok nodes ∧
    (∃ tokens, Token.ofSource source = .ok tokens ∧ ∀ s ∈ nodes, s.Every fun k =>
      ∀ e ∈ k.expressions, ∃ own, Token.ofSource e.source = .ok own ∧
        ((∃ t ∈ own, t.lexeme.isCode = true) ∨
          k.Encloses e ∧ ∃ range, range <:+: Token.uncommented tokens ∧ Token.LineEnds range ∧
            Cursor.sourceOf? source.toList range = some e)) ∧
    ∀ what, Reading.ReadsLineEnds (Reading.parenthesized what) (.emptyParentheses what)
      source.toList := by
  intro source nodes
  have hnodes : ofSource source = .ok nodes := by cbv
  exact ⟨hnodes, blank_of_ofSource hnodes⟩

/-- A condition may be left out if its parentheses stand on two lines. -/
theorem blank_condition_read :
    ∃ nodes, ofSource "if (\n) \x7b\n\x7d" = .ok nodes ∧ ∃ e ∈ expressionsOf nodes, e.Blank := by
  refine ⟨[ofBlock .conditional 1 [ofBlock (.branch ⟨""⟩) 1 []]], by cbv, ⟨""⟩, ?_, [], by cbv, ?_⟩
  · simp [ofBlock, expressionsOf, expressions, Kind.expressions]
  · exact List.forall_mem_nil _

end Statement

end PipelineScript
