import PipelineScript.Proofs.Statement.Following
import PipelineScript.Proofs.Statement.Outside

/-! # Reading a text with expressions filled in

Two texts are the same but for some names of system variables: in their places the second text has
the tokens of expressions. Only expressions may hold such a name, and whoever reads an expression
passes over all that is filled in. So a reading that succeeds on the first text does on the second
one, and stops at the same place (`Filling.Follow`). -/

namespace PipelineScript

namespace Lexeme

/-- The same lexeme, or the name of a system variable and what an expression begins with. -/
inductive Heads : Lexeme → Lexeme → Prop
  | same (l : Lexeme) : Heads l l
  | filled {name : String} {l : Lexeme} : l.mayBegin = true → Heads (systemIdent name) l

end Lexeme

namespace Token

variable {t t' : Token}

theorem isPunct_heads (h : t.lexeme.Heads t'.lexeme) {p : Punct}
    (hp : (Lexeme.punct p).mayBegin = false) : t'.isPunct p = t.isPunct p := by
  obtain ⟨l, _, _, _⟩ := t
  obtain ⟨l', _, _, _⟩ := t'
  cases h with
  | same => rfl
  | filled h =>
    refine decide_eq_false ?_
    rintro rfl
    cases h.symm.trans hp

theorem isKeyword_heads (h : t.lexeme.Heads t'.lexeme) {k : Keyword}
    (hk : (Lexeme.keyword k).mayBegin = false) : t'.isKeyword k = t.isKeyword k := by
  obtain ⟨l, _, _, _⟩ := t
  obtain ⟨l', _, _, _⟩ := t'
  cases h with
  | same => rfl
  | filled h =>
    refine decide_eq_false ?_
    rintro rfl
    cases h.symm.trans hk

theorem isLineEnd_heads (h : t.lexeme.Heads t'.lexeme) : t'.isLineEnd = t.isLineEnd := by
  obtain ⟨l, _, _, _⟩ := t
  obtain ⟨l', _, _, _⟩ := t'
  cases h with
  | same => rfl
  | filled h => cases l' <;> first | rfl | cases h

end Token

/-- A token of one text, and the tokens in its place in another one. -/
structure Cell where
  one : Token
  many : List Token

namespace Cell

/-- The same token. -/
def Plain (x : Cell) : Prop := ∃ t, x.many = [t] ∧ t.lexeme = x.one.lexeme

/-- An expression in place of the name of a system variable. -/
structure Filled (x : Cell) : Prop where
  system : ∃ name, x.one.lexeme = .systemIdent name
  begins : ∃ t ts, x.many = t :: ts ∧ t.lexeme.mayBegin = true
  balanced : Token.Balanced x.many
  free : ∀ l ∈ Lexeme.outside 0 (x.many.map Token.lexeme), l.mayStandFree = true

def ones (xs : List Cell) : List Token := xs.map one

def manys (xs : List Cell) : List Token := xs.flatMap many

variable {x : Cell} {xs ys : List Cell}

/-- The cells are plain or filled. -/
def Fit (xs : List Cell) : Prop := ∀ x ∈ xs, x.Plain ∨ x.Filled

@[simp] theorem ones_append (xs ys : List Cell) : ones (xs ++ ys) = ones xs ++ ones ys :=
  List.map_append

@[simp] theorem manys_append (xs ys : List Cell) : manys (xs ++ ys) = manys xs ++ manys ys :=
  List.flatMap_append

theorem ones_cons (x : Cell) (xs : List Cell) : ones (x :: xs) = x.one :: ones xs := rfl

theorem manys_cons (x : Cell) (xs : List Cell) : manys (x :: xs) = x.many ++ manys xs :=
  List.flatMap_cons

theorem length_ones (xs : List Cell) : (ones xs).length = xs.length := List.length_map _

theorem ones_take (n : Nat) (xs : List Cell) : (ones xs).take n = ones (xs.take n) :=
  List.map_take.symm

theorem manys_split (n : Nat) (xs : List Cell) :
    manys xs = manys (xs.take n) ++ manys (xs.drop n) := by
  rw [← manys_append, List.take_append_drop]

theorem take_manys (n : Nat) (xs : List Cell) :
    (manys xs).take (manys (xs.take n)).length = manys (xs.take n) := by
  rw [manys_split n xs, List.take_left]

theorem drop_manys (n : Nat) (xs : List Cell) :
    (manys xs).drop (manys (xs.take n)).length = manys (xs.drop n) := by
  rw [manys_split n xs, List.drop_left]

theorem Fit.sublist (h : Fit xs) (hys : ys ⊆ xs) : Fit ys := fun x hx => h x (hys hx)

theorem Fit.tail (h : Fit (x :: xs)) : Fit xs := h.sublist (List.subset_cons_self x xs)

/-- What a cell begins with. -/
theorem Fit.heads (h : Fit (x :: xs)) :
    ∃ t' ts', x.many = t' :: ts' ∧ x.one.lexeme.Heads t'.lexeme := by
  rcases h x List.mem_cons_self with ⟨t', hmany, hl⟩ | hfilled
  · exact ⟨t', [], hmany, hl ▸ .same _⟩
  · obtain ⟨t', ts', hmany, hbegins⟩ := hfilled.begins
    obtain ⟨name, hname⟩ := hfilled.system
    exact ⟨t', ts', hmany, hname ▸ .filled hbegins⟩

theorem Fit.head_manys (h : Fit xs) : (xs = [] ∧ manys xs = []) ∨
    ∃ x t', xs.head? = some x ∧ (manys xs).head? = some t' ∧ x.one.lexeme.Heads t'.lexeme := by
  cases xs with
  | nil => exact .inl ⟨rfl, rfl⟩
  | cons x xs =>
    obtain ⟨t', ts', hmany, hl⟩ := h.heads
    exact .inr ⟨x, t', rfl, by rw [manys_cons, hmany]; rfl, hl⟩

/-- Nothing is filled in for other tokens. -/
theorem Fit.plain (h : Fit xs) (hx : x ∈ xs) (hname : ∀ name, x.one.lexeme ≠ .systemIdent name) :
    x.Plain := by
  rcases h x hx with hplain | hfilled
  · exact hplain
  · obtain ⟨name, hsystem⟩ := hfilled.system
    exact absurd hsystem (hname name)

/-! ## Where readers stop -/

section

variable {stop : Token → Bool}

/-- What is filled in may be passed over by whoever does not stop in an expression. -/
def Passable (stop : Token → Bool) (x : Cell) : Prop :=
  x.Filled → ∀ t : Token, t.lexeme ∈ Lexeme.outside 0 (x.many.map Token.lexeme) → stop t = false

theorem Filled.endsExpression (h : x.Filled) {t : Token}
    (ht : t.lexeme ∈ Lexeme.outside 0 (x.many.map Token.lexeme)) : t.endsExpression = false := by
  have hfree := h.free _ ht
  obtain ⟨l, _, _, _⟩ := t
  cases l with
  | punct p => cases p <;> first | rfl | cases hfree
  | lineEnd => cases hfree
  | _ => rfl

/-- An expression ends at the same place, if what it passes over is passable. -/
theorem Fit.expressionLength (h : Fit xs)
    (hstop : ∀ t t' : Token, t'.lexeme = t.lexeme → stop t' = stop t) (depth : Nat)
    (hpass : ∀ x ∈ xs.take (Token.expressionLength stop depth (ones xs)), x.Passable stop)
    (hname : ∀ t name, t.lexeme = .systemIdent name → stop t = false) :
    Token.expressionLength stop depth (manys xs) =
      (manys (xs.take (Token.expressionLength stop depth (ones xs)))).length := by
  induction xs generalizing depth with
  | nil => rfl
  | cons x xs ih =>
    rw [ones_cons, Token.expressionLength] at hpass ⊢
    rcases h x List.mem_cons_self with ⟨t', hmany, hl⟩ | hfilled
    · have hends : t'.endsExpression = x.one.endsExpression :=
        Token.endsExpression_alike (hl ▸ .refl _)
      have hdepth : t'.depthAfter depth = x.one.depthAfter depth :=
        Token.depthAfter_alike (hl ▸ .refl _) depth
      rw [manys_cons, hmany, List.singleton_append, Token.expressionLength, hends,
        hstop _ _ hl, hdepth]
      split
      · rfl
      · rename_i hgo
        rw [if_neg hgo, List.take_succ_cons] at hpass
        rw [ih h.tail _ (List.forall_mem_cons.mp hpass).2, List.take_succ_cons, manys_cons, hmany,
          List.length_append, List.length_singleton]
        omega
    · obtain ⟨name, hsystem⟩ := hfilled.system
      have hends : x.one.endsExpression = false := by
        obtain ⟨⟨l, _, _, _⟩, _⟩ := x
        cases hsystem
        rfl
      have hdepth : x.one.depthAfter depth = depth := by
        obtain ⟨⟨l, _, _, _⟩, _⟩ := x
        cases hsystem
        rfl
      have hgo : ¬(depth = 0 ∧ (x.one.endsExpression || stop x.one) = true) := by
        rintro ⟨-, hstops⟩
        rw [hends, hname _ _ hsystem] at hstops
        cases hstops
      rw [if_neg hgo, List.take_succ_cons] at hpass
      obtain ⟨hx, hxs⟩ := List.forall_mem_cons.mp hpass
      rw [if_neg hgo, manys_cons, List.take_succ_cons, manys_cons, List.length_append]
      rw [hdepth] at hxs ⊢
      rw [hfilled.balanced.expressionLength (fun t ht => by
        rw [hfilled.endsExpression ht, hx hfilled t ht]; rfl), ih h.tail _ hxs]

/-- The parenthesis that closes is the same one. -/
theorem Fit.closingDistance? (h : Fit xs) {depth n : Nat}
    (hn : Token.closingDistance? depth (ones xs) = some n) :
    Token.closingDistance? depth (manys xs) = some (manys (xs.take n)).length := by
  induction xs generalizing depth n with
  | nil => cases hn
  | cons x xs ih =>
    rw [ones_cons, Token.closingDistance?_cons] at hn
    rcases h x List.mem_cons_self with ⟨t', hmany, hl⟩ | hfilled
    · rw [manys_cons, hmany, List.singleton_append, Token.closingDistance?_cons, hl]
      split at hn
      · rename_i hend
        cases hn
        rw [if_pos hend]
        rfl
      · rename_i hgo
        obtain ⟨m, hm, rfl⟩ := Option.map_eq_some_iff.mp hn
        rw [if_neg hgo, ih h.tail hm, List.take_succ_cons, manys_cons, hmany]
        simp [Nat.add_comm]
    · obtain ⟨name, hsystem⟩ := hfilled.system
      rw [hsystem, if_neg (by rintro ⟨-, ⟨⟩⟩)] at hn
      obtain ⟨m, hm, rfl⟩ := Option.map_eq_some_iff.mp hn
      have hm : Token.closingDistance? depth (ones xs) = some m := hm
      rw [manys_cons, hfilled.balanced.closingDistance?, ih h.tail hm, List.take_succ_cons,
        manys_cons, List.length_append]
      rfl

/-- The range operator is the same one. -/
theorem Fit.splitRange? (h : Fit xs) (depth : Nat) :
    (Token.splitRange? depth (ones xs) = none ∧ Token.splitRange? depth (manys xs) = none) ∨
    ∃ n inclusive,
      Token.splitRange? depth (ones xs) =
        some (ones (xs.take n), inclusive, ones (xs.drop (n + 1))) ∧
      Token.splitRange? depth (manys xs) =
        some (manys (xs.take n), inclusive, manys (xs.drop (n + 1))) := by
  induction xs generalizing depth with
  | nil => exact .inl ⟨rfl, rfl⟩
  | cons x xs ih =>
    rw [ones_cons, Token.splitRange?]
    rcases h x List.mem_cons_self with ⟨t', hmany, hl⟩ | hfilled
    · have hpunct (p : Punct) : t'.isPunct p = x.one.isPunct p := by
        rw [Token.isPunct, Token.isPunct, hl]
      have hdepth : t'.depthAfter depth = x.one.depthAfter depth :=
        Token.depthAfter_alike (hl ▸ .refl _) depth
      rw [manys_cons, hmany, List.singleton_append, Token.splitRange?, hpunct, hpunct, hdepth]
      split
      · exact .inr ⟨0, _, rfl, rfl⟩
      · rcases ih h.tail (x.one.depthAfter depth) with ⟨hnone, hnone'⟩ | ⟨n, i, hsome, hsome'⟩
        · rw [hnone, hnone']
          exact .inl ⟨rfl, rfl⟩
        · rw [hsome, hsome']
          refine .inr ⟨n + 1, i, rfl, ?_⟩
          rw [List.take_succ_cons, manys_cons, hmany]
          rfl
    · obtain ⟨name, hsystem⟩ := hfilled.system
      have hgo : ¬(depth = 0 ∧
          (x.one.isPunct .rangeThrough || x.one.isPunct .rangeBelow) = true) := by
        rintro ⟨-, hrange⟩
        simp [Token.isPunct, hsystem] at hrange
      have hdepth : x.one.depthAfter depth = depth := by
        obtain ⟨⟨l, _, _, _⟩, _⟩ := x
        cases hsystem
        rfl
      have hfree : ∀ t : Token, t.lexeme ∈ Lexeme.outside 0 (x.many.map Token.lexeme) →
          (t.isPunct .rangeThrough || t.isPunct .rangeBelow) = false := by
        intro t ht
        have hmay := hfilled.free _ ht
        obtain ⟨l, _, _, _⟩ := t
        cases l with
        | punct p => cases p <;> first | rfl | cases hmay
        | _ => rfl
      rw [if_neg hgo, hdepth, manys_cons, hfilled.balanced.splitRange? hfree]
      rcases ih h.tail depth with ⟨hnone, hnone'⟩ | ⟨n, i, hsome, hsome'⟩
      · rw [hnone, hnone']
        exact .inl ⟨rfl, rfl⟩
      · rw [hsome, hsome']
        exact .inr ⟨n + 1, i, rfl, rfl⟩

end

/-! ## Gaps, names and brackets -/

/-- No gap is filled in. -/
theorem Fit.takeWhile (h : Fit xs) {p : Token → Bool}
    (hp : ∀ t t' : Token, t.lexeme.Heads t'.lexeme → p t' = p t)
    (hname : ∀ t name, t.lexeme = .systemIdent name → p t = false) :
    ((manys xs).takeWhile p).length = (manys (xs.take ((ones xs).takeWhile p).length)).length := by
  induction xs with
  | nil => rfl
  | cons x xs ih =>
    rw [ones_cons, List.takeWhile_cons]
    cases hx : p x.one with
    | false =>
      obtain ⟨t', ts', hmany, hheads⟩ := h.heads
      rw [manys_cons, hmany, List.cons_append, List.takeWhile_cons, hp _ _ hheads, hx]
      rfl
    | true =>
      have hplain : x.Plain := h.plain List.mem_cons_self fun name hsystem => by
        rw [hname _ _ hsystem] at hx
        cases hx
      obtain ⟨t', hmany, hl⟩ := hplain
      have hpt' : p t' = true := (hp x.one t' (hl ▸ .same _)).trans hx
      rw [manys_cons, hmany, List.singleton_append, List.takeWhile_cons, hpt']
      rw [if_pos rfl, List.length_cons, ih h.tail, if_pos rfl, List.length_cons,
        List.take_succ_cons, manys_cons, hmany, List.length_append, List.length_singleton,
        Nat.add_comm]

/-- The further parts of a dotted name are the same, unless something is filled in behind a dot. -/
theorem Fit.dottedParts {xs : List Cell} (h : Fit xs)
    (hdot : (((ones xs).drop (2 * (Token.dottedParts (ones xs)).length)).head?.any
      fun t => t.isPunct .dot) = false) :
    Token.dottedParts (manys xs) = Token.dottedParts (ones xs) ∧
      (manys (xs.take (2 * (Token.dottedParts (ones xs)).length))).length =
        2 * (Token.dottedParts (ones xs)).length := by
  match xs with
  | [] => exact ⟨rfl, rfl⟩
  | [x] =>
    obtain ⟨t', ts', hmany, hheads⟩ := h.heads
    have hx : x.one.isPunct .dot = false := hdot
    refine ⟨?_, rfl⟩
    rw [manys_cons, hmany]
    exact Token.dottedParts_of_head ((Token.isPunct_heads hheads rfl).trans hx)
  | x :: y :: rest =>
    cases hx : x.one.isPunct .dot with
    | false =>
      obtain ⟨t', ts', hmany, hheads⟩ := h.heads
      have hones : Token.dottedParts (ones (x :: y :: rest)) = [] := Token.dottedParts_of_head hx
      rw [hones]
      refine ⟨?_, rfl⟩
      rw [manys_cons, hmany]
      exact Token.dottedParts_of_head ((Token.isPunct_heads hheads rfl).trans hx)
    | true =>
      have hdotted : x.one.lexeme = .punct .dot := of_decide_eq_true hx
      obtain ⟨t', hmany, ht'⟩ := h.plain List.mem_cons_self fun name hsystem => by
        rw [hdotted] at hsystem
        cases hsystem
      have hx' : t'.isPunct .dot = true := decide_eq_true (ht'.trans hdotted)
      by_cases hy : ∃ s, y.one.lexeme = .ident s
      · obtain ⟨s, hs⟩ := hy
        obtain ⟨u', hmany', hu'⟩ := h.tail.plain List.mem_cons_self fun name hsystem => by
          rw [hs] at hsystem
          cases hsystem
        have hrest : Token.dottedParts (ones (x :: y :: rest)) =
            s :: Token.dottedParts (ones rest) := by
          obtain ⟨⟨l, _, _, _⟩, _⟩ := y
          cases hs
          simp [ones, Token.dottedParts, hx]
        have hrest' : Token.dottedParts (manys (x :: y :: rest)) =
            s :: Token.dottedParts (manys rest) := by
          obtain ⟨l, _, _, _⟩ := u'
          cases hu'.trans hs
          simp [manys_cons, hmany, hmany', Token.dottedParts, hx']
        rw [hrest, List.length_cons, Nat.mul_add] at hdot ⊢
        obtain ⟨hparts, hlength⟩ := Fit.dottedParts h.tail.tail hdot
        rw [hrest', hparts]
        refine ⟨rfl, ?_⟩
        rw [List.take_succ_cons, List.take_succ_cons, manys_cons, manys_cons, hmany, hmany',
          List.length_append, List.length_append, hlength]
        simp
        omega
      · -- a dot without a name behind it is ahead
        have hnil : Token.dottedParts (ones (x :: y :: rest)) = [] := by
          obtain ⟨⟨l, _, _, _⟩, _⟩ := y
          cases l with
          | ident s => exact absurd ⟨s, rfl⟩ hy
          | _ => rfl
        rw [hnil] at hdot
        cases hx.symm.trans hdot

/-- The brackets that are open are the same ones. -/
theorem Fit.nest (h : Fit xs) (stack : List Bracket) :
    Lexeme.nest stack ((manys xs).map Token.lexeme) =
      Lexeme.nest stack ((ones xs).map Token.lexeme) := by
  induction xs generalizing stack with
  | nil => rfl
  | cons x xs ih =>
    rw [manys_cons, ones_cons, List.map_append, Lexeme.nest_append, List.map_cons,
      Lexeme.nest_cons]
    rcases h x List.mem_cons_self with ⟨t', hmany, hl⟩ | hfilled
    · rw [hmany, List.map_singleton, Lexeme.nest_cons, hl]
      cases Lexeme.nestOne stack x.one.lexeme with
      | none => rfl
      | some open_ => exact ih h.tail open_
    · obtain ⟨name, hsystem⟩ := hfilled.system
      rw [hfilled.balanced.nest, hsystem, Lexeme.nestOne_of_none rfl rfl]
      exact ih h.tail stack

end Cell

/-- Two texts that are the same but for what is filled in for some names, cell by cell: `fill` makes
an expression of the second text out of one of the first. In a `calm` one nothing with a colon
outside of brackets is filled in. -/
structure Filling where
  fill : SourceExpr → SourceExpr
  calm : SourceExpr → Prop
  text : List Char
  text' : List Char
  cells : List Cell
  fit : Cell.Fit cells
  balanced : Token.Balanced (Cell.ones cells)
  slice : ∀ xs, xs <:+: cells → Cursor.sourceOf? text' (Cell.manys xs) =
    (Cursor.sourceOf? text (Cell.ones xs)).map fill
  colonless : ∀ xs e, xs <:+: cells → Cursor.sourceOf? text (Cell.ones xs) = some e → calm e →
    ∀ x ∈ xs, x.Passable fun t => t.isPunct .colon

namespace Filling

variable {f : Filling} {xs : List Cell} {c c' : Cursor} {α α' β β' : Type}

/-- The cursors stand before the same cells. -/
structure Abreast (f : Filling) (c c' : Cursor) : Prop where
  source : c.source = f.text
  source' : c'.source = f.text'
  row : ∃ xs, xs <:+ f.cells ∧ c.ahead = Cell.ones xs ∧ c'.ahead = Cell.manys xs

theorem fit_of_suffix (h : xs <:+ f.cells) : Cell.Fit xs := f.fit.sublist h.subset

/-- Both cursors pass the same cells. -/
theorem Abreast.pass (h : f.Abreast c c') (hxs : xs <:+ f.cells) (hc : c.ahead = Cell.ones xs)
    (hc' : c'.ahead = Cell.manys xs) (n : Nat) :
    f.Abreast (c.advance n) (c'.advance (Cell.manys (xs.take n)).length) := by
  refine ⟨h.source, h.source', xs.drop n, (List.drop_suffix n xs).trans hxs, ?_, ?_⟩
  · show c.ahead.drop n = _
    rw [hc]
    exact List.map_drop.symm
  · show c'.ahead.drop _ = _
    rw [hc', Cell.drop_manys]

theorem Abreast.head (h : f.Abreast c c') :
    (c.ahead = [] ∧ c'.ahead = []) ∨ ∃ t t', c.head? = some t ∧ c'.head? = some t' ∧
      t.lexeme.Heads t'.lexeme := by
  obtain ⟨xs, hxs, hc, hc'⟩ := h.row
  rcases (fit_of_suffix hxs).head_manys with ⟨rfl, hmanys⟩ | ⟨x, t', hx, ht', hheads⟩
  · exact .inl ⟨hc, hc'.trans hmanys⟩
  · refine .inr ⟨x.one, t', ?_, ?_, hheads⟩
    · rw [Cursor.head?, hc, Cell.ones, List.head?_map, hx]
      rfl
    · rw [Cursor.head?, hc', ht']

/-- Both cursors pass a token that is no name of a system variable. -/
theorem Abreast.next (h : f.Abreast c c') {t : Token} (ht : c.head? = some t)
    (hname : ∀ name, t.lexeme ≠ .systemIdent name) :
    f.Abreast (c.advance 1) (c'.advance 1) ∧ ∃ t', c'.head? = some t' ∧ t'.lexeme = t.lexeme := by
  obtain ⟨xs, hxs, hc, hc'⟩ := h.row
  cases xs with
  | nil =>
    rw [Cursor.head?, hc] at ht
    cases ht
  | cons x xs =>
    rw [Cursor.head?, hc] at ht
    obtain rfl : x.one = t := Option.some.inj ht
    obtain ⟨t', hmany, hl⟩ := (fit_of_suffix hxs).plain List.mem_cons_self hname
    have hpass := h.pass hxs hc hc' 1
    have hone : (Cell.manys ((x :: xs).take 1)).length = 1 := by
      simp [Cell.manys, hmany]
    rw [hone] at hpass
    refine ⟨hpass, t', ?_, hl⟩
    rw [Cursor.head?, hc', Cell.manys_cons, hmany]
    rfl

theorem Abreast.isAtMark (h : f.Abreast c c') {p : Punct}
    (hp : (Lexeme.punct p).mayBegin = false) : c'.isAtMark p = c.isAtMark p := by
  unfold Cursor.isAtMark
  rcases h.head with ⟨hc, hc'⟩ | ⟨t, t', ht, ht', hheads⟩
  · rw [Cursor.head?, Cursor.head?, hc, hc']
  · rw [ht, ht']
    exact Token.isPunct_heads hheads hp

theorem Abreast.isAtKeyword (h : f.Abreast c c') {k : Keyword}
    (hk : (Lexeme.keyword k).mayBegin = false) : c'.isAtKeyword k = c.isAtKeyword k := by
  unfold Cursor.isAtKeyword
  rcases h.head with ⟨hc, hc'⟩ | ⟨t, t', ht, ht', hheads⟩
  · rw [Cursor.head?, Cursor.head?, hc, hc']
  · rw [ht, ht']
    exact Token.isKeyword_heads hheads hk

theorem Abreast.isAtStatementEnd (h : f.Abreast c c') :
    c'.isAtStatementEnd = c.isAtStatementEnd := by
  unfold Cursor.isAtStatementEnd
  rcases h.head with ⟨hc, hc'⟩ | ⟨t, t', ht, ht', hheads⟩
  · rw [Cursor.head?, Cursor.head?, hc, hc']
  · rw [ht, ht', Option.all_some, Option.all_some, Token.isLineEnd_heads hheads,
      Token.isPunct_heads hheads rfl]

theorem Abreast.skipWhile (h : f.Abreast c c') {p : Token → Bool}
    (hp : ∀ t t' : Token, t.lexeme.Heads t'.lexeme → p t' = p t)
    (hname : ∀ t name, t.lexeme = .systemIdent name → p t = false) :
    f.Abreast (c.skipWhile p) (c'.skipWhile p) := by
  obtain ⟨xs, hxs, hc, hc'⟩ := h.row
  have hpass := h.pass hxs hc hc' (c.ahead.takeWhile p).length
  rwa [hc, ← (fit_of_suffix hxs).takeWhile hp hname, ← hc, ← hc'] at hpass

/-! ## Readings that follow -/

/-- When the first reading succeeds with such a result, the second one does, too: the results are
related, and the cursors stand before the same cells again. -/
def FollowIf (f : Filling) (ok : α → Cursor → Prop) (rel : α → α' → Prop) (r : Reading α)
    (r' : Reading α') (c c' : Cursor) : Prop :=
  ∀ a c₁, r c = .ok (a, c₁) → ok a c₁ → ∃ a' c₁', r' c' = .ok (a', c₁') ∧ rel a a' ∧
    f.Abreast c₁ c₁' ∧ c₁.ahead.length ≤ c.ahead.length

/-- Whenever the first reading succeeds, the second one does. -/
abbrev Follow (f : Filling) (rel : α → α' → Prop) (r : Reading α) (r' : Reading α')
    (c c' : Cursor) : Prop := f.FollowIf (fun _ _ => True) rel r r' c c'

open Reading

variable {ok ok' : α → Cursor → Prop} {done : β → Cursor → Prop} {rel : α → α' → Prop}
  {rel' : β → β' → Prop} {r s : Reading α} {r' s' : Reading α'} {g : α → Reading β}
  {g' : α' → Reading β'}

theorem FollowIf.mono (h : f.FollowIf ok rel r r' c c') (hok : ∀ a c₁, ok' a c₁ → ok a c₁) :
    f.FollowIf ok' rel r r' c c' := fun a c₁ hr ha => h a c₁ hr (hok a c₁ ha)

theorem Follow.mono (h : f.Follow rel r r' c c') : f.FollowIf ok rel r r' c c' :=
  FollowIf.mono h fun _ _ _ => trivial

/-- Whatever the second of two readings makes of a result of the first one tells that this is such a
result as needed. -/
theorem FollowIf.bind_onward (h : f.FollowIf ok rel r r' c c')
    (hok : ∀ a c₁ b c₂, g a c₁ = .ok (b, c₂) → done b c₂ → ok a c₁)
    (hg : ∀ {a a' c₁ c₁'}, rel a a' → f.Abreast c₁ c₁' → r c = .ok (a, c₁) →
      c₁.ahead.length ≤ c.ahead.length → f.FollowIf done rel' (g a) (g' a') c₁ c₁') :
    f.FollowIf done rel' (r >>= g) (r' >>= g') c c' := by
  intro b c₂ hb hdone
  obtain ⟨a, c₁, ha, hgb⟩ := bind_eq_ok.mp hb
  obtain ⟨a', c₁', ha', hrel, hc₁, hlen⟩ := h a c₁ ha (hok a c₁ b c₂ hgb hdone)
  obtain ⟨b', c₂', hb', hrel', hc₂, hlen'⟩ := hg hrel hc₁ ha hlen b c₂ hgb hdone
  exact ⟨b', c₂', bind_eq_ok.mpr ⟨a', c₁', ha', hb'⟩, hrel', hc₂, Nat.le_trans hlen' hlen⟩

theorem FollowIf.bind (h : f.FollowIf ok rel r r' c c')
    (hok : ∀ a c₁ b c₂, g a c₁ = .ok (b, c₂) → done b c₂ → ok a c₁)
    (hg : ∀ {a a' c₁ c₁'}, rel a a' → f.Abreast c₁ c₁' →
      f.FollowIf done rel' (g a) (g' a') c₁ c₁') :
    f.FollowIf done rel' (r >>= g) (r' >>= g') c c' :=
  h.bind_onward hok fun ha hc _ _ => hg ha hc

theorem Follow.bind_onward (h : f.Follow rel r r' c c')
    (hg : ∀ {a a' c₁ c₁'}, rel a a' → f.Abreast c₁ c₁' → r c = .ok (a, c₁) →
      c₁.ahead.length ≤ c.ahead.length → f.FollowIf done rel' (g a) (g' a') c₁ c₁') :
    f.FollowIf done rel' (r >>= g) (r' >>= g') c c' :=
  FollowIf.bind_onward h (fun _ _ _ _ _ _ => trivial) hg

theorem Follow.bind (h : f.Follow rel r r' c c')
    (hg : ∀ {a a' c₁ c₁'}, rel a a' → f.Abreast c₁ c₁' →
      f.FollowIf done rel' (g a) (g' a') c₁ c₁') :
    f.FollowIf done rel' (r >>= g) (r' >>= g') c c' :=
  Follow.bind_onward h fun ha hc _ _ => hg ha hc

theorem follow_pure {a : α} {a' : α'} (h : rel a a') (hc : f.Abreast c c') :
    f.FollowIf ok rel (pure a) (pure a') c c' := by
  intro b c₁ hr _
  cases hr
  exact ⟨a', c', rfl, h, hc, Nat.le_refl _⟩

theorem follow_of_error (h : ∃ d, r c = .error d) : f.FollowIf ok rel r r' c c' := by
  intro a c₁ hr _
  obtain ⟨d, hd⟩ := h
  cases hd.symm.trans hr

theorem follow_fail (cause : StatementCause) : f.FollowIf ok rel (fail cause) r' c c' :=
  follow_of_error ⟨_, rfl⟩

theorem follow_get {g : Cursor → Reading β} {g' : Cursor → Reading β'}
    (h : f.FollowIf done rel' (g c) (g' c') c c') :
    f.FollowIf done rel' (get >>= g) (get >>= g') c c' := h

/-- The readings go on from other cursors, which stand further on. -/
theorem follow_set {x x' : Cursor} {g : PUnit → Reading β} {g' : PUnit → Reading β'}
    (h : f.FollowIf done rel' (g ⟨⟩) (g' ⟨⟩) x x') (hx : x.ahead.length ≤ c.ahead.length) :
    f.FollowIf done rel' (set x >>= g) (set x' >>= g') c c' := by
  intro b c₁ hb hdone
  obtain ⟨b', c₁', hb', hrel, hc, hlen⟩ := h b c₁ hb hdone
  exact ⟨b', c₁', hb', hrel, hc, Nat.le_trans hlen hx⟩

theorem follow_failIf {p : Prop} [Decidable p] (cause cause' : StatementCause)
    {g : Unit → Reading β} {g' : Unit → Reading β'}
    (h : f.FollowIf done rel' (g ()) (g' ()) c c') :
    f.FollowIf done rel' (if p then fail cause >>= g else g ())
      (if p then fail cause' >>= g' else g' ()) c c' := by
  by_cases hp : p
  · rw [if_pos hp]
    exact follow_of_error ⟨_, rfl⟩
  · rw [if_neg hp, if_neg hp]
    exact h

theorem follow_failUnless {p p' : Prop} [Decidable p] [Decidable p'] (hp : p ↔ p')
    (cause cause' : StatementCause) {g : Unit → Reading β} {g' : Unit → Reading β'}
    (h : f.FollowIf done rel' (g ()) (g' ()) c c') :
    f.FollowIf done rel' (if p then g () else fail cause >>= g)
      (if p' then g' () else fail cause' >>= g') c c' := by
  by_cases hc : p
  · rw [if_pos hc, if_pos (hp.mp hc)]
    exact h
  · rw [if_neg hc]
    exact follow_of_error ⟨_, rfl⟩

/-- Whichever way both readings take, they go on in the same way. -/
theorem FollowIf.join {p : Prop} [Decidable p] (h : f.FollowIf ok rel r r' c c')
    (h' : f.FollowIf ok rel s s' c c')
    (hok : ∀ a c₁ b c₂, g a c₁ = .ok (b, c₂) → done b c₂ → ok a c₁)
    (hg : ∀ {a a' c₁ c₁'}, rel a a' → f.Abreast c₁ c₁' →
      f.FollowIf done rel' (g a) (g' a') c₁ c₁') :
    f.FollowIf done rel' (if p then r >>= g else s >>= g) (if p then r' >>= g' else s' >>= g')
      c c' := by
  split
  · exact h.bind hok hg
  · exact h'.bind hok hg

/-! ## Marks and names -/

theorem follow_advance (hc : f.Abreast c c') {t : Token} (ht : c.head? = some t)
    (hname : ∀ name, t.lexeme ≠ .systemIdent name) :
    f.Follow (fun _ _ => True) (advance 1) (advance 1) c c' := by
  intro _ c₁ hr _
  cases hr
  exact ⟨⟨⟩, _, rfl, trivial, (hc.next ht hname).1, by simp [Cursor.advance]⟩

theorem ne_systemIdent_of_isPunct {t : Token} {p : Punct} (h : t.isPunct p = true) :
    ∀ name, t.lexeme ≠ .systemIdent name := by
  intro name hname
  rw [of_decide_eq_true h] at hname
  cases hname

theorem ne_systemIdent_of_isKeyword {t : Token} {k : Keyword} (h : t.isKeyword k = true) :
    ∀ name, t.lexeme ≠ .systemIdent name := by
  intro name hname
  rw [of_decide_eq_true h] at hname
  cases hname

/-- A mark that both cursors stand before, or neither does. -/
theorem follow_accept (hc : f.Abreast c c') {p : Punct} (hp : c'.isAtMark p = c.isAtMark p) :
    f.Follow Eq (accept p) (accept p) c c' := by
  intro found c₁ hr _
  rw [Twin.accept_eq] at hr
  rw [Twin.accept_eq, hp]
  split at hr
  · rename_i hat
    obtain ⟨t, ht, hpunct⟩ := (Option.any_eq_true _ _).mp hat
    cases hr
    rw [if_pos hat]
    exact ⟨_, _, rfl, rfl, (hc.next ht (ne_systemIdent_of_isPunct hpunct)).1,
      by simp [Cursor.advance]⟩
  · rename_i hat
    cases hr
    rw [if_neg hat]
    exact ⟨_, _, rfl, rfl, hc, Nat.le_refl _⟩

theorem follow_acceptKeyword (hc : f.Abreast c c') {k : Keyword}
    (hk : (Lexeme.keyword k).mayBegin = false) :
    f.Follow Eq (acceptKeyword k) (acceptKeyword k) c c' := by
  intro found c₁ hr _
  rw [Twin.acceptKeyword_eq] at hr
  rw [Twin.acceptKeyword_eq, hc.isAtKeyword hk]
  split at hr
  · rename_i hat
    obtain ⟨t, ht, hkeyword⟩ := (Option.any_eq_true _ _).mp hat
    cases hr
    rw [if_pos hat]
    exact ⟨_, _, rfl, rfl, (hc.next ht (ne_systemIdent_of_isKeyword hkeyword)).1,
      by simp [Cursor.advance]⟩
  · rename_i hat
    cases hr
    rw [if_neg hat]
    exact ⟨_, _, rfl, rfl, hc, Nat.le_refl _⟩

/-- A mark that the first cursor stands before is not filled in. -/
theorem Abreast.isAtMark_of_isAtMark (h : f.Abreast c c') {p : Punct}
    (hp : c.isAtMark p = true) : c'.isAtMark p = true := by
  obtain ⟨t, ht, hpunct⟩ := (Option.any_eq_true _ _).mp hp
  obtain ⟨-, t', ht', hl⟩ := h.next ht (ne_systemIdent_of_isPunct hpunct)
  rw [Cursor.isAtMark, ht']
  exact decide_eq_true (hl.trans (of_decide_eq_true hpunct))

theorem mark_eq (p : Punct) (what : String) (c : Cursor) :
    mark p what c = if c.isAtMark p = true then .ok ((), c.advance 1)
      else .error (c.diagnose (.expectedMark p what)) := by
  show (accept p c >>= fun s =>
    (if s.1 = true then pure () else fail (.expectedMark p what)) s.2) = _
  rw [Twin.accept_eq]
  split <;> rfl

theorem follow_mark (hc : f.Abreast c c') (p : Punct) (what : String) :
    f.Follow (fun _ _ => True) (mark p what) (mark p what) c c' := by
  intro _ c₁ hr _
  rw [mark_eq] at hr
  split at hr
  · rename_i hat
    obtain ⟨t, ht, hpunct⟩ := (Option.any_eq_true _ _).mp hat
    cases hr
    rw [mark_eq, if_pos (hc.isAtMark_of_isAtMark hat)]
    exact ⟨_, _, rfl, trivial, (hc.next ht (ne_systemIdent_of_isPunct hpunct)).1,
      by simp [Cursor.advance]⟩
  · cases hr

theorem follow_keyword (hc : f.Abreast c c') {k : Keyword}
    (hk : (Lexeme.keyword k).mayBegin = false) :
    f.Follow (fun _ _ => True) (keyword k) (keyword k) c c' :=
  Follow.bind (follow_acceptKeyword hc hk) fun hfound hc₁ => by
    subst hfound
    split
    · exact follow_pure trivial hc₁
    · exact follow_fail _

theorem follow_name (hc : f.Abreast c c') (what : String) :
    f.Follow Eq (name what) (name what) c c' := by
  intro s c₁ hr _
  obtain ⟨used, hpass, t, rfl, ht⟩ := takes_name what s c₁ hr
  have hhead : c.head? = some t := by rw [Cursor.head?, hpass.ahead]; rfl
  obtain ⟨hnext, t', ht', hl⟩ := hc.next hhead fun name hname => by
    rw [ht] at hname
    cases hname
  obtain ⟨source, passed, ahead⟩ := c
  obtain ⟨source', passed', ahead'⟩ := c'
  obtain ⟨rest, rfl⟩ := List.head?_eq_some_iff.mp (show ahead.head? = some t from hhead)
  obtain ⟨rest', rfl⟩ := List.head?_eq_some_iff.mp (show ahead'.head? = some t' from ht')
  have hread := name_eq ht what source passed rest
  cases hr.symm.trans hread
  exact ⟨s, _, name_eq (hl.trans ht) what source' passed' rest', rfl, hnext, by simp⟩

theorem follow_dottedName (hc : f.Abreast c c') (what : String) :
    f.FollowIf (fun _ c₁ => c₁.isAtMark .dot = false) Eq (dottedName what) (dottedName what)
      c c' := by
  unfold dottedName
  refine Follow.bind (follow_name hc what) fun {s s' c₁ c₁'} hs hc₁ => ?_
  subst hs
  intro parts c₂ hr hdot
  have hread (x : Cursor) : (do
      let more := Token.dottedParts (← get).ahead
      advance (2 * more.length)
      return s :: more : Reading (List String)) x =
        .ok (s :: Token.dottedParts x.ahead, x.advance (2 * (Token.dottedParts x.ahead).length)) :=
    rfl
  cases (hread c₁).symm.trans hr
  obtain ⟨xs, hxs, hahead, hahead'⟩ := hc₁.row
  rw [Cursor.isAtMark, Cursor.head?] at hdot
  simp only [Cursor.advance, hahead] at hdot
  obtain ⟨hparts, hlength⟩ := (fit_of_suffix hxs).dottedParts hdot
  have hpass := hc₁.pass hxs hahead hahead' (2 * (Token.dottedParts c₁.ahead).length)
  refine ⟨_, _, hread c₁', ?_, ?_, by simp [Cursor.advance]⟩
  · rw [hahead, hahead', hparts]
  · rw [hahead', hparts, ← hlength, ← hahead]
    exact hpass

/-! ## Expressions -/

/-- The expression with what is filled in. -/
def Fills (f : Filling) (e e' : SourceExpr) : Prop := e' = f.fill e

/-- The tokens on both sides are those of the same cells. -/
def Row (f : Filling) (ts ts' : List Token) : Prop :=
  ∃ xs, xs <:+: f.cells ∧ ts = Cell.ones xs ∧ ts' = Cell.manys xs

theorem Row.slice {ts ts' : List Token} (h : f.Row ts ts') {e : SourceExpr}
    (he : Cursor.sourceOf? f.text ts = some e) :
    Cursor.sourceOf? f.text' ts' = some (f.fill e) := by
  obtain ⟨xs, hxs, rfl, rfl⟩ := h
  rw [f.slice xs hxs, he]
  rfl

theorem follow_take (hc : f.Abreast c c') (hxs : xs <:+ f.cells) (hahead : c.ahead = Cell.ones xs)
    (hahead' : c'.ahead = Cell.manys xs) (n : Nat) :
    f.Follow f.Row (take n) (take (Cell.manys (xs.take n)).length) c c' := by
  intro ts c₁ hr _
  have hread (n : Nat) (x : Cursor) : take n x = .ok (x.ahead.take n, x.advance n) := rfl
  cases (hread n c).symm.trans hr
  refine ⟨_, _, hread _ c', ?_, hc.pass hxs hahead hahead' n, by simp [Cursor.advance]⟩
  refine ⟨xs.take n, (List.take_prefix n xs).isInfix.trans hxs.isInfix, ?_, ?_⟩
  · rw [hahead, Cell.ones_take]
  · rw [hahead', Cell.take_manys]

theorem follow_sourceOf (hc : f.Abreast c c') {ts ts' : List Token} (h : f.Row ts ts')
    (cause : StatementCause) : f.Follow f.Fills (sourceOf ts cause) (sourceOf ts' cause) c c' := by
  intro e c₁ hr _
  obtain ⟨he, rfl⟩ := sourceOf_eq_ok.mp hr
  rw [hc.source] at he
  refine ⟨f.fill e, c', sourceOf_eq_ok.mpr ⟨?_, rfl⟩, rfl, hc, Nat.le_refl _⟩
  rw [hc.source']
  exact h.slice he

theorem expression_eq_ok {stop : Token → Bool} {what : String} {e : SourceExpr} {c₁ : Cursor} :
    expression stop what c = .ok (e, c₁) ↔
      Cursor.sourceOf? c.source (c.ahead.take (Token.expressionLength stop 0 c.ahead)) = some e ∧
        c₁ = c.advance (Token.expressionLength stop 0 c.ahead) :=
  sourceOf_eq_ok (c := c.advance (Token.expressionLength stop 0 c.ahead))

section

variable {stop : Token → Bool} (hstop : ∀ t t' : Token, t'.lexeme = t.lexeme → stop t' = stop t)
  (hname : ∀ t name, t.lexeme = .systemIdent name → stop t = false)
include hstop hname

/-- An expression in which everything filled in may be passed over. -/
theorem follow_expression {good : SourceExpr → Prop} (hgood : ∀ xs e, xs <:+: f.cells →
      Cursor.sourceOf? f.text (Cell.ones xs) = some e → good e → ∀ x ∈ xs, x.Passable stop)
    (hc : f.Abreast c c') (what : String) :
    f.FollowIf (fun e _ => good e) f.Fills (expression stop what) (expression stop what) c c' := by
  intro e c₁ hr he
  obtain ⟨hslice, rfl⟩ := expression_eq_ok.mp hr
  obtain ⟨xs, hxs, hahead, hahead'⟩ := hc.row
  rw [hc.source, hahead, Cell.ones_take] at hslice
  have hrow : xs.take (Token.expressionLength stop 0 (Cell.ones xs)) <:+: f.cells :=
    (List.take_prefix _ xs).isInfix.trans hxs.isInfix
  have hlength := (fit_of_suffix hxs).expressionLength hstop 0 (hgood _ e hrow hslice he) hname
  refine ⟨f.fill e, c'.advance (Token.expressionLength stop 0 c'.ahead),
    expression_eq_ok.mpr ⟨?_, rfl⟩, rfl, ?_, by simp [Cursor.advance]⟩
  · rw [hc.source', hahead', hlength, Cell.take_manys]
    exact Row.slice ⟨_, hrow, rfl, rfl⟩ hslice
  · have hpass := hc.pass hxs hahead hahead' (Token.expressionLength stop 0 c.ahead)
    rw [hahead', hlength]
    rwa [hahead] at hpass ⊢

/-- Nothing that stops the expression stands outside of brackets in another one. -/
theorem follow_freeExpression
    (hfree : ∀ t : Token, t.lexeme.mayStandFree = true → stop t = false)
    (hc : f.Abreast c c') (what : String) :
    f.Follow f.Fills (expression stop what) (expression stop what) c c' :=
  follow_expression hstop hname
    (fun _ _ _ _ _ _ _ hfilled t ht => hfree t (hfilled.free _ ht)) hc what

end

theorem follow_restOfStatement (hc : f.Abreast c c') (what : String) :
    f.Follow f.Fills (restOfStatement what) (restOfStatement what) c c' :=
  follow_freeExpression (fun _ _ _ => rfl) (fun _ _ _ => rfl) (fun _ _ => rfl) hc what

theorem isPunct_of_lexeme (p : Punct) (t t' : Token) (h : t'.lexeme = t.lexeme) :
    t'.isPunct p = t.isPunct p := by
  rw [Token.isPunct, Token.isPunct, h]

theorem isPunct_of_systemIdent (p : Punct) (t : Token) (name : String)
    (h : t.lexeme = .systemIdent name) : t.isPunct p = false := by
  rw [Token.isPunct, h]
  rfl

theorem exists_of_closingDistance? {depth n : Nat} {ts : List Token}
    (h : Token.closingDistance? depth ts = some n) :
    ∃ t, (ts.drop n).head? = some t ∧ t.isPunct .closeParen = true := by
  induction ts generalizing depth n with
  | nil => cases h
  | cons t ts ih =>
    rw [Token.closingDistance?] at h
    have hnext {depth : Nat} (h : (Token.closingDistance? depth ts).map (· + 1) = some n) :
        ∃ u, ((t :: ts).drop n).head? = some u ∧ u.isPunct .closeParen = true := by
      obtain ⟨m, hm, rfl⟩ := Option.map_eq_some_iff.mp h
      exact ih hm
    split at h
    · rename_i hclose
      split at h
      · cases h
        exact ⟨t, rfl, hclose⟩
      · exact hnext h
    · split at h
      · exact hnext h
      · exact hnext h

theorem follow_parenthesized (hc : f.Abreast c c') (what : String) :
    f.Follow f.Fills (parenthesized what) (parenthesized what) c c' := by
  unfold parenthesized
  refine Follow.bind (follow_mark hc _ _) fun {_ _ c₁ c₁'} _ hc₁ => follow_get ?_
  obtain ⟨xs, hxs, hahead, hahead'⟩ := hc₁.row
  cases hd : Token.closingDistance? 0 c₁.ahead with
  | none => exact follow_of_error ⟨_, rfl⟩
  | some n =>
    obtain ⟨t, ht, hclose⟩ := exists_of_closingDistance? hd
    have hd' := hd
    rw [hahead] at hd'
    rw [hahead', (fit_of_suffix hxs).closingDistance? hd']
    refine Follow.bind_onward (follow_take hc₁ hxs hahead hahead' n) fun hrow hc₂ htake _ => ?_
    cases htake
    refine Follow.bind_onward (follow_sourceOf hc₂ hrow _) fun he hc₃ hsource _ => ?_
    obtain rfl := (sourceOf_eq_ok.mp hsource).2
    exact Follow.bind (follow_advance hc₃ ht (ne_systemIdent_of_isPunct hclose))
      fun _ hc₄ => follow_pure he hc₄

/-! ## Invocations -/

/-- The arguments with what is filled in. -/
def FillsAll (f : Filling) (es es' : List SourceExpr) : Prop := es' = es.map f.fill

theorem follow_arguments {n n' : Nat} (hn : n ≤ n') (hc : f.Abreast c c') :
    f.Follow f.FillsAll (arguments n) (arguments n') c c' := by
  induction n generalizing n' c c' with
  | zero => exact follow_fail _
  | succ n ih =>
    obtain ⟨m, rfl⟩ := Nat.exists_eq_add_of_lt (Nat.lt_of_succ_le hn)
    have hfree : ∀ t : Token, t.lexeme.mayStandFree = true → t.isPunct .comma = false := by
      intro t ht
      refine decide_eq_false fun hcomma => ?_
      rw [hcomma] at ht
      cases ht
    unfold arguments
    refine Follow.bind (follow_freeExpression (isPunct_of_lexeme .comma)
      (isPunct_of_systemIdent .comma) hfree hc _) fun he hc₁ => ?_
    refine Follow.bind (follow_accept hc₁ (hc₁.isAtMark rfl)) fun hfound hc₂ => ?_
    subst hfound
    split
    · refine Follow.bind (ih (Nat.le_add_right n m) hc₂) fun hes hc₃ => follow_pure ?_ hc₃
      rw [FillsAll, List.map_cons, he, hes]
    · refine Follow.bind (follow_mark hc₂ _ _) fun _ hc₃ => follow_pure ?_ hc₃
      rw [FillsAll, List.map_singleton, he]

theorem isAtMark_of_mark {p : Punct} {what : String} {u : Unit} {c₁ : Cursor}
    (h : mark p what c = .ok (u, c₁)) : c.isAtMark p = true := by
  rw [mark_eq] at h
  split at h
  · assumption
  · cases h

/-- A cursor stands before one mark only. -/
theorem isAtMark_of_ne {p q : Punct} (h : c.isAtMark p = true) (hq : p ≠ q) :
    c.isAtMark q = false := by
  obtain ⟨t, ht, hpunct⟩ := (Option.any_eq_true _ _).mp h
  rw [Cursor.isAtMark, ht, Option.any_some, Token.isPunct, of_decide_eq_true hpunct]
  exact decide_eq_false fun hl => hq (Lexeme.punct.inj hl)

/-- Nothing is left out. -/
theorem length_le (hc : f.Abreast c c') : c.ahead.length ≤ c'.ahead.length := by
  obtain ⟨xs, hxs, hahead, hahead'⟩ := hc.row
  rw [hahead, hahead']
  have hfit := fit_of_suffix hxs
  clear hxs hahead hahead'
  induction xs with
  | nil => exact Nat.le_refl _
  | cons x xs ih =>
    obtain ⟨t', ts', hmany, -⟩ := hfit.heads
    have hrest := ih hfit.tail
    rw [Cell.ones_cons, Cell.manys_cons, hmany]
    simp only [List.length_cons, List.length_append]
    omega

/-- The invocation with what is filled in. -/
def FillsCall (f : Filling) (call call' : Invocation) : Prop :=
  call' = ⟨call.name, call.args.map f.fill⟩

theorem follow_invocation (hc : f.Abreast c c') :
    f.Follow f.FillsCall invocation invocation c c' := by
  unfold invocation
  refine FollowIf.bind (follow_dottedName hc _) ?_ fun {parts parts' c₁ c₁'} hparts hc₁ => ?_
  · intro parts c₁ call c₂ hr _
    obtain ⟨_, _, hmark, -⟩ := bind_eq_ok.mp hr
    exact isAtMark_of_ne (isAtMark_of_mark hmark) (by decide)
  subst hparts
  refine Follow.bind (follow_mark hc₁ _ _) fun _ hc₂ => ?_
  refine Follow.bind (follow_accept hc₂ (hc₂.isAtMark rfl)) fun hfound hc₃ => ?_
  subst hfound
  split
  · exact follow_pure rfl hc₃
  · refine follow_get (Follow.bind (follow_arguments (length_le hc₃) hc₃) fun hargs hc₄ => ?_)
    refine follow_pure ?_ hc₄
    rw [FillsCall, hargs]

end Filling

end PipelineScript
