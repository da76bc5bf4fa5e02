import PipelineScript.Proofs.Statement.Cuts
import PipelineScript.Proofs.Token.Slices

/-! # Tokens with the comments between them

Statements are read from the tokens of a text that are no comments. A row of these is a stretch of
all tokens, with comments between them (`Token.exists_of_infix_filter`). -/

namespace PipelineScript.Token

/-- Tokens in a row among those that pass are the ones that pass of some tokens in a row, with the
same ends. -/
theorem exists_of_infix_filter {p : Token → Bool} {ts range : List Token} {first last : Token}
    (h : range <:+: ts.filter p) (hfirst : range.head? = some first)
    (hlast : range.getLast? = some last) :
    ∃ before middle after, ts = before ++ middle ++ after ∧ middle.filter p = range ∧
      middle.head? = some first ∧ middle.getLast? = some last := by
  obtain ⟨pre, post, hall⟩ := h
  rw [List.append_assoc] at hall
  obtain ⟨ts₁, ts₂, rfl, -, h₂⟩ := List.filter_eq_append_iff.mp hall.symm
  obtain ⟨ts₂, ts₃, rfl, hrange, -⟩ := List.filter_eq_append_iff.mp h₂
  -- what does not pass is left out in front of the first one ...
  obtain ⟨rest, rfl⟩ := List.head?_eq_some_iff.mp hfirst
  obtain ⟨gap, ts₂, rfl, -, hp, hrest⟩ := List.filter_eq_cons_iff.mp hrange
  have hfilter : (first :: ts₂).filter p = first :: rest := by
    rw [List.filter_cons_of_pos hp, hrest]
  -- ... and behind the last one
  obtain ⟨init, hinit⟩ := List.getLast?_eq_some_iff.mp hlast
  rw [hinit] at hfilter
  obtain ⟨us, vs, huv, hus, hvs⟩ := List.filter_eq_append_iff.mp hfilter
  obtain ⟨gap', behind, rfl, hgap', hq, -⟩ := List.filter_eq_cons_iff.mp hvs
  have hgap : gap'.filter p = [] := List.filter_eq_nil_iff.mpr hgap'
  refine ⟨ts₁ ++ gap, us ++ gap' ++ [last], behind ++ ts₃, ?_, ?_, ?_, by simp⟩
  · simp [huv]
  · rw [hinit, List.filter_append, List.filter_append, hus, hgap, List.append_nil,
      List.filter_cons_of_pos hq, List.filter_nil]
  · have hhead := congrArg List.head? huv
    cases us with
    | nil => cases gap' <;> simpa using hhead.symm
    | cons u us => simpa using hhead.symm

theorem code_filter (ts : List Token) :
    code (ts.filter fun t => !t.lexeme.isComment) = code ts := by
  induction ts with
  | nil => rfl
  | cons t ts ih =>
    by_cases hc : t.lexeme.isComment = true
    · have hcode : t.lexeme.isCode = false := by simp [Lexeme.isCode, hc]
      rw [List.filter_cons_of_neg (by simp [hc]), ih, code_cons, hcode]
      rfl
    · rw [List.filter_cons_of_pos (by simp [hc]), code_cons, code_cons, ih]

/-- Brackets nest no matter which comments stand between them. -/
theorem balanced_iff {ts us : List Token} (h : code ts = code us) : Balanced ts ↔ Balanced us := by
  unfold Balanced
  rw [← Lexeme.nest_code, ← Lexeme.nest_code, h]

/-- The tokens that statements are read from. -/
def uncommented (ts : List Token) : List Token := ts.filter fun t => !t.lexeme.isComment

@[simp] theorem uncommented_append (ts us : List Token) :
    uncommented (ts ++ us) = uncommented ts ++ uncommented us := List.filter_append ts us

theorem uncommented_cons {t : Token} (h : t.lexeme.isComment = false) (ts : List Token) :
    uncommented (t :: ts) = t :: uncommented ts :=
  List.filter_cons_of_pos (by rw [h]; rfl)

/-- The brackets of an accepted text nest, no matter what its comments hold. -/
theorem balanced_of_check {source : List Char} {ts : List Token}
    (hcheck : Balance.check source = .ok ()) (hscan : scan 1 0 source = .ok ts) :
    Balanced (uncommented ts) :=
  (balanced_iff (code_filter ts)).mpr ((Balance.check_eq_ok_iff (scans_of_scan hscan)).mp hcheck)

theorem ofSource_eq_ok {source : String} {ts : List Token} :
    ofSource source = .ok ts ↔
      Balance.check source.toList = .ok () ∧ scan 1 0 source.toList = .ok ts := by
  unfold ofSource ofChars
  cases Balance.check source.toList with
  | error fault =>
    constructor
    · intro h; cases h
    · intro h; cases h.1
  | ok =>
    show (scan 1 0 source.toList).mapError _ = .ok ts ↔ _
    cases scan 1 0 source.toList with
    | error fault =>
      constructor
      · intro h; cases h
      · intro h; cases h.2
    | ok ts' =>
      constructor
      · intro h; cases h; exact ⟨rfl, rfl⟩
      · intro h; cases h.2; rfl

end PipelineScript.Token
