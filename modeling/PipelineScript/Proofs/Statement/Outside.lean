import PipelineScript.Proofs.Expression.Climbing
import PipelineScript.Proofs.Statement.Comments

/-! # Outside of brackets

Whoever looks for the end of an expression looks at what stands outside of its brackets and counts
the brackets themselves. Outside of its brackets an expression has nothing that ends it, apart from
the colon of a choice (`Derives.free`). Tokens whose brackets nest are passed over as a whole by
everyone who does not stop at one outside of them (`expressionLength_through`,
`splitRange?_through`). -/

namespace PipelineScript

open Token

namespace Lexeme

/-- The lexemes outside of round and square brackets, with the opening ones, while `depth` brackets
are open. -/
def outside : Nat → List Lexeme → List Lexeme
  | _, [] => []
  | depth, l :: ls =>
    if depth = 0 then l :: outside (countAfter (· != .curly) depth l) ls
    else outside (countAfter (· != .curly) depth l) ls

variable {stack stack' outer : List Bracket} {l l' : Lexeme} {ls ms : List Lexeme} {b : Bracket}

theorem mem_outside_self (l : Lexeme) (ls : List Lexeme) : l ∈ outside 0 (l :: ls) := by
  rw [outside, if_pos rfl]
  exact List.mem_cons_self

theorem outside_subset_cons (depth : Nat) (l : Lexeme) (ls : List Lexeme) :
    outside (countAfter (· != .curly) depth l) ls ⊆ outside depth (l :: ls) := by
  rw [outside]
  split
  · exact List.subset_cons_self _ _
  · exact List.Subset.refl _

theorem outside_subset_self (depth : Nat) (ls : List Lexeme) : outside depth ls ⊆ ls := by
  induction ls generalizing depth with
  | nil => exact List.Subset.refl _
  | cons l ls ih =>
    rw [outside]
    split
    · exact List.cons_subset_cons l (ih _)
    · exact List.subset_cons_of_subset l (ih _)

theorem countAfter_depthOf (h : nestOne stack l = some stack') :
    countAfter (· != .curly) (depthOf stack) l = depthOf stack' := countAfter_countP _ h

theorem depthOf_replicate (n : Nat) : depthOf (List.replicate n .round) = n := by
  simp [depthOf, List.countP_replicate]

theorem outside_append (h : nest stack ls = some stack') (ms : List Lexeme) :
    outside (depthOf stack) (ls ++ ms) =
      outside (depthOf stack) ls ++ outside (depthOf stack') ms := by
  induction ls generalizing stack with
  | nil =>
    obtain rfl : stack = stack' := Option.some.inj h
    rfl
  | cons l ls ih =>
    obtain ⟨open_, hl, hls⟩ := Option.bind_eq_some_iff.mp h
    rw [List.cons_append, outside, outside, countAfter_depthOf hl, ih hls]
    split <;> rfl

/-- Inside of a bracket that stays open nothing is outside. -/
theorem outside_eq_nil (h : nest stack ls = some stack') (ho : 0 < depthOf outer) :
    outside (depthOf (stack ++ outer)) ls = [] := by
  induction ls generalizing stack with
  | nil => rfl
  | cons l ls ih =>
    obtain ⟨open_, hl, hls⟩ := Option.bind_eq_some_iff.mp h
    have hpos : depthOf (stack ++ outer) ≠ 0 := by
      rw [depthOf, List.countP_append]
      unfold depthOf at ho
      omega
    rw [outside, if_neg hpos, countAfter_depthOf (nestOne_append hl outer), ih hls]

/-- What stands outside of all brackets does so before any are opened, too. -/
theorem outside_subset (h : nest [] ls = some []) (depth : Nat) :
    outside depth ls ⊆ outside 0 ls := by
  rcases Nat.eq_zero_or_pos depth with rfl | hpos
  · exact List.Subset.refl _
  · have hpos' : 0 < depthOf (List.replicate depth .round) := by rwa [depthOf_replicate]
    have hnil := outside_eq_nil h hpos'
    rw [List.nil_append, depthOf_replicate] at hnil
    rw [hnil]
    exact List.nil_subset _

/-- Of a stretch in brackets only the opening one is outside. -/
theorem outside_enclosed (hl : l.opened? = some b) (hb : b ≠ .curly) (h : nest [] ls = some []) :
    outside 0 (l :: (ls ++ [l'])) = [l] := by
  have hdepth : 0 < depthOf [b] := by simp [depthOf, hb]
  have hopen : countAfter (· != .curly) (depthOf []) l = depthOf ([] ++ [b]) :=
    countAfter_depthOf (nestOne_of_opened hl [])
  have hinner : nest ([] ++ [b]) ls = some ([] ++ [b]) := nest_append_right h [b]
  show l :: outside (countAfter (· != .curly) (depthOf []) l) (ls ++ [l']) = [l]
  rw [hopen, outside_append hinner, outside_eq_nil h hdepth, List.nil_append]
  show l :: (if depthOf [b] = 0 then _ else _) = _
  rw [if_neg (Nat.ne_of_gt hdepth)]
  rfl

theorem outside_filter (depth : Nat) (ls : List Lexeme) :
    outside depth (ls.filter isCode) = (outside depth ls).filter isCode := by
  induction ls generalizing depth with
  | nil => rfl
  | cons l ls ih =>
    cases hl : l.isCode with
    | true =>
      rw [List.filter_cons_of_pos hl, outside, outside, ih]
      split
      · rw [List.filter_cons_of_pos hl]
      · rfl
    | false =>
      have hcount : countAfter (· != .curly) depth l = depth := by
        cases l <;> first | (cases hl; done) | rfl
      rw [List.filter_cons_of_neg (by simp [hl]), ih, outside, hcount]
      split
      · rw [List.filter_cons_of_neg (by simp [hl])]
      · rfl

/-! ## The outside of expressions -/

/-- Outside of its brackets an expression may have the lexeme. -/
def mayStandFree : Lexeme → Bool
  | punct p => !([.closeParen, .closeBracket, .openBrace, .closeBrace, .comma, .assign,
      .rangeThrough, .rangeBelow] : List Punct).contains p
  | lineEnd _ | comment _ => false
  | _ => true

/-- An expression may begin with the lexeme. -/
def mayBegin : Lexeme → Bool
  | punct p => [.minus, .bang, .openParen, .openBracket].contains p
  | keyword k => [.true_, .false_, .null].contains k
  | lineEnd _ | comment _ => false
  | _ => true

end Lexeme

namespace Lexeme

/-- The lexeme is no bracket. -/
def IsFlat (l : Lexeme) : Prop := l.opened? = none ∧ l.closed? = none

variable {l l' : Lexeme} {ls ms : List Lexeme} {b : Bracket}

theorem nest_flat (h : l.IsFlat) (stack : List Bracket) (ls : List Lexeme) :
    nest stack (l :: ls) = nest stack ls := by
  rw [nest_cons, nestOne_of_none h.1 h.2, Option.bind_some]

theorem nest_enclosed (hl : l.opened? = some b) (h : nest [] ls = some [])
    (hl' : l'.closed? = some b) : nest [] (l :: (ls ++ [l'])) = some [] := by
  have hinner : nest [b] ls = some [b] := nest_append_right h [b]
  rw [nest_cons, nestOne_of_opened hl, Option.bind_some, nest_append, hinner, Option.bind_some,
    nest_cons, (nestOne_of_closed hl').mpr rfl]
  rfl

theorem nest_behind (h : nest [] ls = some []) (ms : List Lexeme) :
    nest [] (ls ++ ms) = nest [] ms := by
  rw [nest_append, h, Option.bind_some]

theorem outside_flat (h : l.IsFlat) (ls : List Lexeme) :
    outside 0 (l :: ls) = l :: outside 0 ls := by
  have hdepth := countAfter_depthOf (nestOne_of_none h.1 h.2 [])
  rw [outside, if_pos rfl, show countAfter (· != .curly) 0 l = 0 from hdepth]

theorem outside_behind (h : nest [] ls = some []) (ms : List Lexeme) :
    outside 0 (ls ++ ms) = outside 0 ls ++ outside 0 ms := outside_append h ms

end Lexeme

namespace Expression

open Lexeme

variable {p : Phrase} {ts : List Lexeme}

theorem flat_of_operator {mark : Punct} {op : BinaryOp} {level : Nat}
    (h : (mark, op) ∈ operatorsOf level) :
    (punct mark).IsFlat ∧ (punct mark).mayStandFree = true := by
  obtain ⟨hmark, -⟩ := mem_operatorsOf_iff.mp h
  cases mark <;> first | (cases hmark; done) | exact ⟨⟨rfl, rfl⟩, rfl⟩

/-- The brackets of an expression nest. -/
theorem Derives.nest (h : Derives p ts) : nest [] ts = Option.some [] := by
  induction h with
  | plain _ ih | operand _ ih | tighter _ ih | unsigned _ ih | whole _ ih | some _ ih | last _ ih =>
    exact ih
  | choice _ _ _ hc hy hn =>
    rw [nest_behind hc, nest_flat ⟨rfl, rfl⟩, nest_behind hy, nest_flat ⟨rfl, rfl⟩, hn]
  | binary hop _ _ hl hr => rw [nest_behind hl, nest_flat (flat_of_operator hop).1, hr]
  | negate _ ih | not _ ih => rw [nest_flat ⟨rfl, rfl⟩, ih]
  | fieldIdent _ ih | fieldKeyword _ ih =>
    rw [nest_behind ih, nest_flat ⟨rfl, rfl⟩, nest_flat ⟨rfl, rfl⟩]
    rfl
  | item _ _ ht hi => rw [nest_behind ht, nest_enclosed rfl hi rfl]
  | call _ ih => rw [nest_flat ⟨rfl, rfl⟩, nest_enclosed rfl ih rfl]
  | listed _ ih | parens _ ih => exact nest_enclosed rfl ih rfl
  | more _ _ ht hs => rw [nest_behind ht, nest_flat ⟨rfl, rfl⟩, hs]
  | _ => rfl

/-- What may stand in a phrase outside of its brackets: in a list also the commas. -/
def Phrase.Admits : Phrase → Lexeme → Prop
  | .list _, l | .items _, l => l.mayStandFree = true ∨ l = punct .comma
  | _, l => l.mayStandFree = true

theorem Derives.outside (h : Derives p ts) : ∀ l ∈ outside 0 ts, p.Admits l := by
  induction h with
  | plain _ ih | operand _ ih | tighter _ ih | unsigned _ ih | whole _ ih | some _ ih => exact ih
  | last _ ih => exact fun l hl => .inl (ih l hl)
  | choice hc hy _ ihc ihy ihn =>
    rw [outside_behind hc.nest, outside_flat ⟨rfl, rfl⟩, outside_behind hy.nest,
      outside_flat ⟨rfl, rfl⟩]
    simp only [List.forall_mem_append, List.forall_mem_cons]
    exact ⟨ihc, rfl, ihy, rfl, ihn⟩
  | binary hop hl _ ihl ihr =>
    rw [outside_behind hl.nest, outside_flat (flat_of_operator hop).1]
    simp only [List.forall_mem_append, List.forall_mem_cons]
    exact ⟨ihl, (flat_of_operator hop).2, ihr⟩
  | negate _ ih | not _ ih =>
    rw [outside_flat ⟨rfl, rfl⟩]
    exact List.forall_mem_cons.mpr ⟨rfl, ih⟩
  | fieldIdent ht ih | fieldKeyword ht ih =>
    rw [outside_behind ht.nest, outside_flat ⟨rfl, rfl⟩, outside_flat ⟨rfl, rfl⟩]
    simp only [List.forall_mem_append, List.forall_mem_cons]
    exact ⟨ih, rfl, rfl, List.forall_mem_nil _⟩
  | item ht hi ih _ =>
    rw [outside_behind ht.nest, outside_enclosed rfl (by decide) hi.nest]
    simp only [List.forall_mem_append, List.forall_mem_cons]
    exact ⟨ih, rfl, List.forall_mem_nil _⟩
  | call ht _ =>
    rw [outside_flat ⟨rfl, rfl⟩, outside_enclosed rfl (by decide) ht.nest]
    simp only [List.forall_mem_cons]
    exact ⟨rfl, rfl, List.forall_mem_nil _⟩
  | listed ht _ | parens ht _ =>
    rw [outside_enclosed rfl (by decide) ht.nest]
    exact List.forall_mem_singleton.mpr rfl
  | more ht _ ih ihs =>
    rw [outside_behind ht.nest, outside_flat ⟨rfl, rfl⟩]
    simp only [List.forall_mem_append, List.forall_mem_cons]
    exact ⟨fun l hl => .inl (ih l hl), .inr rfl, ihs⟩
  | none => exact List.forall_mem_nil _
  | _ => exact List.forall_mem_singleton.mpr rfl

/-- What a phrase begins with, unless it is an empty list. -/
theorem Derives.begins (h : Derives p ts) :
    p = .list [] ∨ ∃ t us, ts = t :: us ∧ t.mayBegin = true := by
  induction h with
  | plain _ ih | tighter _ ih | operand _ ih | unsigned _ ih | whole _ ih | some _ ih | last _ ih =>
    obtain ⟨⟨⟩⟩ | ⟨t, us, rfl, ht⟩ := ih
    exact .inr ⟨t, us, rfl, ht⟩
  | fieldIdent _ ih | fieldKeyword _ ih =>
    obtain ⟨⟨⟩⟩ | ⟨t, us, rfl, ht⟩ := ih
    exact .inr ⟨t, _, rfl, ht⟩
  | choice _ _ _ ih | binary _ _ _ ih | item _ _ ih | more _ _ ih =>
    obtain ⟨⟨⟩⟩ | ⟨t, us, rfl, ht⟩ := ih
    exact .inr ⟨t, _, rfl, ht⟩
  | none => exact .inl rfl
  | _ => exact .inr ⟨_, _, rfl, rfl⟩

end Expression

namespace Token

open Lexeme

variable {ts : List Token} {stack stack' : List Bracket} {stop : Token → Bool}

/-- The tokens of an expression, if no statement ends outside of its brackets: what it begins with,
and what stands outside. -/
theorem free_of_expression {e : String} {tree : Expression} (hts : ofSource e = .ok ts)
    (htree : Expression.ofSource e = .ok tree) (hcomment : ∀ t ∈ ts, t.lexeme.isComment = false)
    (hline : ∀ l ∈ outside 0 (ts.map Token.lexeme), l.isLineEnd = false) :
    (∃ t us, ts = t :: us ∧ t.lexeme.mayBegin = true) ∧
      ∀ l ∈ outside 0 (ts.map Token.lexeme), l.mayStandFree = true := by
  obtain ⟨hcheck, hscan⟩ := ofSource_eq_ok.mp hts
  have hchars : ofChars e.toList = .ok ts := by rw [ofChars, hcheck]; exact hscan
  unfold Expression.ofSource at htree
  rw [hchars] at htree
  have hderives : Expression.Derives (.choice tree) (code ts) :=
    Expression.ofLexemes_eq_ok_iff_derives.mp htree
  have hcode : ∀ l ∈ outside 0 (ts.map Token.lexeme), l.isCode = true := by
    intro l hl
    obtain ⟨t, ht, rfl⟩ := List.mem_map.mp (outside_subset_self 0 _ hl)
    simp [isCode, hcomment t ht, hline _ hl]
  have hall : outside 0 (code ts) = outside 0 (ts.map Token.lexeme) := by
    rw [code, outside_filter]
    exact List.filter_eq_self.mpr hcode
  constructor
  · obtain ⟨⟨⟩⟩ | ⟨l, ls, hls, hl⟩ := hderives.begins
    cases ts with
    | nil => cases hls
    | cons t us =>
      refine ⟨t, us, rfl, ?_⟩
      rw [code_cons, if_pos (hcode t.lexeme (mem_outside_self _ _)), List.cons.injEq] at hls
      rw [hls.1]
      exact hl
  · intro l hl
    rw [← hall] at hl
    exact hderives.outside l hl

/-! ## Passing over tokens -/

/-- Nobody who does not stop outside of the brackets of some tokens stops in them. -/
theorem expressionLength_through (h : nest stack (ts.map Token.lexeme) = some stack')
    (hgo : ∀ t : Token, t.lexeme ∈ outside (depthOf stack) (ts.map Token.lexeme) →
      (t.endsExpression || stop t) = false) (us : List Token) :
    expressionLength stop (depthOf stack) (ts ++ us) =
      ts.length + expressionLength stop (depthOf stack') us := by
  induction ts generalizing stack with
  | nil =>
    obtain rfl : stack = stack' := Option.some.inj h
    rw [List.nil_append, List.length_nil, Nat.zero_add]
  | cons t ts ih =>
    obtain ⟨open_, ht, hts⟩ := Option.bind_eq_some_iff.mp h
    have hstay : ¬(depthOf stack = 0 ∧ (t.endsExpression || stop t) = true) := by
      rintro ⟨hd, hstop⟩
      rw [hd] at hgo
      cases (hgo t (mem_outside_self _ _)).symm.trans hstop
    have hrest := outside_subset_cons (depthOf stack) t.lexeme (ts.map Token.lexeme)
    rw [countAfter_depthOf ht] at hrest
    rw [List.cons_append, expressionLength, if_neg hstay, depthAfter_depthOf ht,
      ih hts fun u hu => hgo u (hrest hu), List.length_cons]
    omega

/-- Both sides of a range operator that comes behind the tokens. -/
theorem splitRange?_through (h : nest stack (ts.map Token.lexeme) = some stack')
    (hgo : ∀ t : Token, t.lexeme ∈ outside (depthOf stack) (ts.map Token.lexeme) →
      (t.isPunct .rangeThrough || t.isPunct .rangeBelow) = false) (us : List Token) :
    splitRange? (depthOf stack) (ts ++ us) = (splitRange? (depthOf stack') us).map
      fun split => (ts ++ split.1, split.2) := by
  induction ts generalizing stack with
  | nil =>
    obtain rfl : stack = stack' := Option.some.inj h
    rw [List.nil_append]
    exact Option.map_id'.symm
  | cons t ts ih =>
    obtain ⟨open_, ht, hts⟩ := Option.bind_eq_some_iff.mp h
    have hstay : ¬(depthOf stack = 0 ∧
        (t.isPunct .rangeThrough || t.isPunct .rangeBelow) = true) := by
      rintro ⟨hd, hstop⟩
      rw [hd] at hgo
      cases (hgo t (mem_outside_self _ _)).symm.trans hstop
    have hrest := outside_subset_cons (depthOf stack) t.lexeme (ts.map Token.lexeme)
    rw [countAfter_depthOf ht] at hrest
    rw [List.cons_append, splitRange?, if_neg hstay, depthAfter_depthOf ht,
      ih hts fun u hu => hgo u (hrest hu), Option.map_map]
    rfl

/-! ## Balanced tokens -/

theorem Balanced.outside_subset (h : Balanced ts) (depth : Nat) :
    outside (depthOf (List.replicate depth .round)) (ts.map Token.lexeme) ⊆
      outside 0 (ts.map Token.lexeme) := Lexeme.outside_subset h _

theorem Balanced.expressionLength (h : Balanced ts)
    (hgo : ∀ t : Token, t.lexeme ∈ outside 0 (ts.map Token.lexeme) →
      (t.endsExpression || stop t) = false) (depth : Nat) (us : List Token) :
    expressionLength stop depth (ts ++ us) = ts.length + expressionLength stop depth us := by
  have hrun := expressionLength_through (h.nest (List.replicate depth .round))
    (fun t ht => hgo t (h.outside_subset depth ht)) us
  rwa [depthOf_replicate] at hrun

theorem Balanced.splitRange? (h : Balanced ts)
    (hgo : ∀ t : Token, t.lexeme ∈ outside 0 (ts.map Token.lexeme) →
      (t.isPunct .rangeThrough || t.isPunct .rangeBelow) = false) (depth : Nat)
    (us : List Token) :
    splitRange? depth (ts ++ us) = (splitRange? depth us).map
      fun split => (ts ++ split.1, split.2) := by
  have hrun := splitRange?_through (h.nest (List.replicate depth .round))
    (fun t ht => hgo t (h.outside_subset depth ht)) us
  rwa [depthOf_replicate] at hrun

theorem Balanced.closingDistance? (h : Balanced ts) (depth : Nat) (us : List Token) :
    closingDistance? depth (ts ++ us) = (closingDistance? depth us).map (ts.length + ·) := by
  have hrun := closingDistance?_through (h.nest (List.replicate depth .round)) us
  simpa [List.countP_replicate] using hrun

end Token

end PipelineScript
