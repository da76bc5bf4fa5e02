import Mathlib
import PipelineScript.Proofs.Guarded.Climbing
import PipelineScript.Proofs.Guarded.Rules
import PipelineScript.Proofs.Guarded.Tokens
import PipelineScript.Script

/-! # Compiling by places

Whatever the text, its tokens, its statements, the script that it compiles to and the expression
that it is are found by places without a trap (`untrapped`). Compiling shows the first twelve bytes
of the digest in a log. The rules that a tree is checked by go down the tree itself. -/

namespace PipelineScript.Guarded

open Text

variable {ε ε' α : Type}

/-- The same outcome with a fault in other words. -/
def rephrase (f : ε → ε') (x : Except (Trap ⊕ ε) α) : Except (Trap ⊕ ε') α :=
  x.mapError (Sum.map id f)

theorem rephrase_sure (f : ε → ε') (x : Except ε α) :
    rephrase f (sure x) = sure (x.mapError f) := by
  cases x <;> rfl

theorem sure_bind {β : Type} {x : Except ε α} {f : α → Except ε β}
    {g : α → Except (Trap ⊕ ε) β} (h : ∀ a, x = .ok a → g a = sure (f a)) :
    (sure x >>= g) = sure (x >>= f) := by
  cases x with
  | error e => rfl
  | ok a => exact h a rfl

def tokens (source : String) : Except (Trap ⊕ Diagnostic) (List Token) :=
  rephrase (fun fault => fault.diagnose source.toList) (Scanning.tokenize source.toList)

def statements (source : String) : Except (Trap ⊕ Diagnostic) (List Statement) := do
  Parsing.parse source.toList (← tokens source)

def expression (source : String) : Except (Trap ⊕ ExpressionFault) Expression := do
  let tokens ← rephrase (fun fault => .lexical fault.cause) (Scanning.tokenize source.toList)
  Climbing.parse (Expression.lexemesOf tokens)

/-- The first bytes of a digest. -/
def shownDigest (hash : String) : Except (Trap ⊕ ε) (List Char) :=
  match upTo? 12 hash.toList with
  | some shown => .ok shown
  | none => .error (.inl .slice)

def compile (source : String) : Except (Trap ⊕ Diagnostic) Script := do
  let statements ← statements source
  sure (Finding.check statements)
  let _ ← shownDigest (Digest.ofText source)
  return ⟨Digest.ofText source, statements⟩

/-! ## The digest -/

theorem utf8Size_digitChar : ∀ n < 16, (Nat.digitChar n).utf8Size = 1 := by decide

theorem utf8Size_of_mem_toDigitsCore {fuel n : Nat} {cs : List Char}
    (hcs : ∀ c ∈ cs, c.utf8Size = 1) : ∀ c ∈ Nat.toDigitsCore 16 fuel n cs, c.utf8Size = 1 := by
  induction fuel generalizing n cs with
  | zero => exact hcs
  | succ fuel ih =>
    have hcons : ∀ c ∈ Nat.digitChar (n % 16) :: cs, c.utf8Size = 1 :=
      List.forall_mem_cons.mpr ⟨utf8Size_digitChar _ (Nat.mod_lt n (by decide)), hcs⟩
    rw [Nat.toDigitsCore]
    split
    · exact hcons
    · exact ih hcons

theorem utf8Size_of_mem_hexOfWord (w : UInt32) : ∀ c ∈ Digest.hexOfWord w, c.utf8Size = 1 := by
  intro c hc
  rcases List.mem_append.mp hc with hc | hc
  · rw [List.eq_of_mem_replicate hc]
    rfl
  · exact utf8Size_of_mem_toDigitsCore (by simp) c hc

theorem le_length_hexOfWord (w : UInt32) : 8 ≤ (Digest.hexOfWord w).length := by
  rw [Digest.hexOfWord, List.length_append, List.length_replicate]
  omega

theorem utf8Length_eq_length {cs : List Char} (h : ∀ c ∈ cs, c.utf8Size = 1) :
    utf8Length cs = cs.length := by
  induction cs with
  | nil => rfl
  | cons c cs ih =>
    obtain ⟨hc, hcs⟩ := List.forall_mem_cons.mp h
    rw [utf8Length, hc, ih hcs, List.length_cons, Nat.add_comm]

theorem shownDigest_eq (source : String) :
    ∃ shown, (shownDigest (Digest.ofText source) : Except (Trap ⊕ ε) _) = .ok shown := by
  obtain ⟨cs, hcs⟩ : ∃ cs, cs = (Digest.sha256 source.toUTF8.toList).words.flatMap
    Digest.hexOfWord := ⟨_, rfl⟩
  have hbytes : ∀ c ∈ cs, c.utf8Size = 1 := by
    rw [hcs]
    intro c hc
    obtain ⟨w, -, hw⟩ := List.mem_flatMap.mp hc
    exact utf8Size_of_mem_hexOfWord w c hw
  have hlen : 12 ≤ cs.length := by
    rw [hcs, Digest.Chain.words, List.flatMap_cons, List.flatMap_cons, List.length_append,
      List.length_append]
    have hfirst := le_length_hexOfWord (Digest.sha256 source.toUTF8.toList).a
    have hsecond := le_length_hexOfWord (Digest.sha256 source.toUTF8.toList).b
    omega
  have htake : utf8Length (cs.take 12) = 12 := by
    rw [utf8Length_eq_length fun c hc => hbytes c (List.mem_of_mem_take hc), List.length_take]
    omega
  have hcut := upTo?_utf8Length (cs.take 12) (cs.drop 12)
  rw [htake, List.take_append_drop] at hcut
  refine ⟨cs.take 12, ?_⟩
  rw [shownDigest, Digest.ofText, String.toList_ofList, ← hcs, hcut]

/-! ## Whole texts -/

theorem tokens_eq (source : String) : tokens source = sure (Token.ofSource source) := by
  rw [tokens, Scanning.tokenize_eq, rephrase_sure]
  rfl

theorem statements_eq (source : String) : statements source = sure (Statement.ofSource source) := by
  rw [statements, tokens_eq, Statement.ofSource]
  exact sure_bind fun found hfound => Parsing.parse_eq (Lexeme.ok_of_mapError hfound)

theorem expression_eq (source : String) :
    expression source = sure (Expression.ofSource source) := by
  rw [expression, Scanning.tokenize_eq, rephrase_sure]
  exact sure_bind fun found _ => Climbing.parse_eq _

theorem compile_eq (source : String) : compile source = sure (Script.compile source) := by
  obtain ⟨shown, hshown⟩ := shownDigest_eq (ε := Diagnostic) source
  unfold compile Script.compile
  rw [statements_eq, hshown]
  refine sure_bind fun found _ => ?_
  exact sure_bind fun _ _ => rfl

/-- A rule for statements that applies at a place and reads a statement there moves on, if it has
turns for the tokens ahead. -/
def RulesMove (text : List Char) (tokens : List Token) : Prop :=
  ∀ turns place, tokens.length - place ≤ turns →
    ∀ rule ∈ Parsing.rules text tokens (Parsing.statements text tokens turns),
      rule.applies place = true → ∀ statement next,
        rule.parse place = .ok (statement, next) → place < next

/-- By places every text has the outcome that it has anyway, a value or a fault, and no step is
without a result. Every statement takes a token at least. -/
theorem untrapped (source : String) :
    tokens source = sure (Token.ofSource source) ∧
      statements source = sure (Statement.ofSource source) ∧
      compile source = sure (Script.compile source) ∧
      expression source = sure (Expression.ofSource source) ∧
      ∀ found, Token.ofSource source = .ok found →
        RulesMove source.toList (found.filter fun t => !t.lexeme.isComment) := by
  refine ⟨tokens_eq source, statements_eq source, compile_eq source, expression_eq source, ?_⟩
  intro found hfound turns place hturns rule hrule happlies statement next hparse
  have hplaced := (Parsing.placed_of_ofChars (Lexeme.ok_of_mapError hfound)).filter
    fun t => !t.lexeme.isComment
  exact Parsing.lt_of_rule hplaced hturns hrule happlies hparse

/-- An assignment is read by the rule for them, which moves on over its three tokens. -/
theorem untrapped_assignment : ∃ found : List Token, Token.ofSource "x = 1" = .ok found ∧
    ∃ rule ∈ Parsing.rules "x = 1".toList (found.filter fun t => !t.lexeme.isComment)
      (Parsing.statements "x = 1".toList (found.filter fun t => !t.lexeme.isComment) 3),
      rule.applies 0 = true ∧
        ∃ statement next, rule.parse 0 = .ok (statement, next) ∧ 0 < next := by
  have hfound : Token.ofSource "x = 1" =
      .ok [⟨.ident "x", 1, 0, 1⟩, ⟨.punct .assign, 1, 2, 3⟩, ⟨.int 1, 1, 4, 5⟩] := by cbv
  have hmove := (untrapped "x = 1").2.2.2.2 _ hfound 3 0 (by decide)
  refine ⟨_, hfound, _, List.mem_of_getElem? (i := 13) rfl, ?_⟩
  have happlies := hmove _ (List.mem_of_getElem? (i := 13) rfl) rfl
  refine ⟨rfl, .ofLine (.assign "x" (.expr ⟨"1"⟩)) 1, 3, ?_⟩
  have hparse := happlies (.ofLine (.assign "x" (.expr ⟨"1"⟩)) 1) 3 (by cbv)
  exact ⟨by cbv, hparse⟩

end PipelineScript.Guarded
