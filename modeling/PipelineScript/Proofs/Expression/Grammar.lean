import PipelineScript.Expression.Reader

/-! # The grammar of expressions

The grammar is stratified: every level of binary operators has a phrase of its own, whose left
operand may hold operators of the same level and whose right operand only tighter ones. It speaks of
lexemes and trees alone and knows nothing of how they are read. -/

namespace PipelineScript.Expression

/-- The binary operators of a level, which ascends from loose to tight. -/
def operatorsOf : Nat → List (Punct × BinaryOp)
  | 1 => [(.or, .or)]
  | 2 => [(.and, .and)]
  | 3 => [(.equal, .equal), (.notEqual, .notEqual)]
  | 4 => [(.less, .less), (.atMost, .atMost), (.greater, .greater), (.atLeast, .atLeast)]
  | 5 => [(.plus, .add), (.minus, .subtract)]
  | 6 => [(.star, .multiply), (.slash, .divide), (.percent, .remainder)]
  | _ => []

/-- What a row of lexemes may be, with its tree. -/
inductive Phrase where
  /-- An expression of any kind. -/
  | choice (e : Expression)
  /-- Operands with binary operators of a level and of all tighter ones. -/
  | chain (level : Nat) (e : Expression)
  /-- An operand with its unary operators. -/
  | signed (e : Expression)
  /-- An atom with the fields and items taken from it. -/
  | access (e : Expression)
  | atom (e : Expression)
  /-- Expressions with commas between them, perhaps none. -/
  | list (es : List Expression)
  /-- The same with at least one. -/
  | items (es : List Expression)

open Lexeme

inductive Derives : Phrase → List Lexeme → Prop
  | plain {e : Expression} {ts : List Lexeme} : Derives (.chain 1 e) ts → Derives (.choice e) ts
  | choice {c y n : Expression} {cs ys ns : List Lexeme} :
      Derives (.chain 1 c) cs → Derives (.choice y) ys → Derives (.choice n) ns →
      Derives (.choice (.choice c y n)) (cs ++ punct .question :: (ys ++ punct .colon :: ns))
  | operand {e : Expression} {ts : List Lexeme} : Derives (.signed e) ts → Derives (.chain 7 e) ts
  | tighter {level : Nat} {e : Expression} {ts : List Lexeme} :
      Derives (.chain (level + 1) e) ts → Derives (.chain level e) ts
  | binary {level : Nat} {p : Punct} {op : BinaryOp} {l r : Expression} {ls rs : List Lexeme} :
      (p, op) ∈ operatorsOf level → Derives (.chain level l) ls → Derives (.chain (level + 1) r) rs →
      Derives (.chain level (.binary op l r)) (ls ++ punct p :: rs)
  | negate {e : Expression} {ts : List Lexeme} :
      Derives (.signed e) ts → Derives (.signed (.unary .negate e)) (punct .minus :: ts)
  | not {e : Expression} {ts : List Lexeme} :
      Derives (.signed e) ts → Derives (.signed (.unary .not e)) (punct .bang :: ts)
  | unsigned {e : Expression} {ts : List Lexeme} : Derives (.access e) ts → Derives (.signed e) ts
  | whole {e : Expression} {ts : List Lexeme} : Derives (.atom e) ts → Derives (.access e) ts
  | fieldIdent {e : Expression} {name : String} {ts : List Lexeme} :
      Derives (.access e) ts → Derives (.access (.field e name)) (ts ++ [punct .dot, ident name])
  | fieldKeyword {e : Expression} {word : Keyword} {ts : List Lexeme} : Derives (.access e) ts →
      Derives (.access (.field e word.text)) (ts ++ [punct .dot, keyword word])
  | item {e i : Expression} {ts is : List Lexeme} : Derives (.access e) ts → Derives (.choice i) is →
      Derives (.access (.item e i)) (ts ++ punct .openBracket :: (is ++ [punct .closeBracket]))
  | int {value : Int64} : Derives (.atom (.literal (.int value))) [int value]
  | float {digits : String} {value : Float} : Numeral.readFloat? digits.toList = some value →
      Derives (.atom (.literal (.float value))) [float digits]
  | str {contents : String} : Derives (.atom (.literal (.str contents))) [str contents]
  | true_ : Derives (.atom (.literal (.bool true))) [keyword .true_]
  | false_ : Derives (.atom (.literal (.bool false))) [keyword .false_]
  | null : Derives (.atom (.literal .null)) [keyword .null]
  | variable_ {name : String} : Derives (.atom (.variable_ name)) [ident name]
  | systemVariable {name : String} : Derives (.atom (.variable_ name)) [systemIdent name]
  | call {name : String} {args : List Expression} {ts : List Lexeme} : Derives (.list args) ts →
      Derives (.atom (.call name args))
        (ident name :: punct .openParen :: (ts ++ [punct .closeParen]))
  | listed {es : List Expression} {ts : List Lexeme} : Derives (.list es) ts →
      Derives (.atom (.list es)) (punct .openBracket :: (ts ++ [punct .closeBracket]))
  | parens {e : Expression} {ts : List Lexeme} : Derives (.choice e) ts →
      Derives (.atom e) (punct .openParen :: (ts ++ [punct .closeParen]))
  | none : Derives (.list []) []
  | some {es : List Expression} {ts : List Lexeme} : Derives (.items es) ts → Derives (.list es) ts
  | last {e : Expression} {ts : List Lexeme} : Derives (.choice e) ts → Derives (.items [e]) ts
  | more {e : Expression} {es : List Expression} {ts us : List Lexeme} :
      Derives (.choice e) ts → Derives (.items es) us →
      Derives (.items (e :: es)) (ts ++ punct .comma :: us)

/-! ## Levels -/

theorem mem_operatorsOf_iff {level : Nat} {p : Punct} {op : BinaryOp} :
    (p, op) ∈ operatorsOf level ↔ BinaryOp.ofMark? p = some op ∧ op.level = level := by
  constructor
  · intro h
    unfold operatorsOf at h
    split at h <;> simp at h <;> grind [BinaryOp.ofMark?, BinaryOp.level]
  · rintro ⟨hp, rfl⟩
    rw [BinaryOp.ofMark?_eq_some_iff] at hp
    subst hp
    cases op <;> decide

theorem Derives.loosen {m level : Nat} {e : Expression} {ts : List Lexeme}
    (h : Derives (.chain m e) ts) (hle : level ≤ m) : Derives (.chain level e) ts := by
  induction hle with
  | refl => exact h
  | step _ ih => exact ih (.tighter h)

/-- No operator is looser than the first level. -/
theorem Derives.first_level {e : Expression} {ts : List Lexeme} (h : Derives (.chain 0 e) ts) :
    Derives (.chain 1 e) ts := by
  cases h with
  | tighter h => exact h
  | binary hop => cases hop

end PipelineScript.Expression
