import Mathlib
import PipelineScript.Proofs.Statement.Rereading

/-! # Reading printed statements on a line

A printed statement without a block is read again as the same statement, perhaps on another line
(`Statement.reads_onLine`). -/

namespace PipelineScript

open Token PrintItem

namespace Statement

open Reading

variable {text : List Char} {ts us : List Token}

/-! ## Statements on a line -/

theorem reads_readImport {imported localName : String}
    (hs : Spelled text [space, path imported, space, keyword .as_, space, .name localName] ts) :
    Reads text readImport (ts ++ us) us (· = .importPath imported localName) := by
  obtain ⟨parts, ts, rfl, ⟨first, more, himported, hpath⟩, hs⟩ := hs.space.uncons
  obtain ⟨word, ts, rfl, hword, hs⟩ := hs.space.token rfl
  obtain ⟨last, ts, rfl, hlast, hs⟩ := hs.space.token rfl
  obtain rfl := hs.eq_nil
  unfold readImport
  rw [List.append_assoc]
  refine (reads_dottedName hpath ?_ _).bind fun path hparts => ?_
  · simp [Token.isPunct, hword]
  refine (reads_acceptKeyword hword).bind fun found hfound => ?_
  subst hfound
  refine (reads_name hlast _).bind fun name hname => reads_pure ?_
  rw [hparts, hname, himported]

theorem isAtStatementEnd_of_stopped (h : Stopped us) (passed : List Token) :
    Cursor.isAtStatementEnd ⟨text, passed, us⟩ = true := by
  cases us with
  | nil => rfl
  | cons t us =>
    have ht : t.isLineEnd = true := h
    simp [Cursor.isAtStatementEnd, Cursor.head?, ht]

/-- The type of a declaration, if it has one. -/
theorem reads_type {declaredType : Option String} {α : Type} {f : Option (List String) → Reading α}
    {vs : List Token} {ok : α → Prop} (hs : Spelled text (Kind.typeItems declaredType) ts)
    (hus : us.head?.any (fun t => t.isPunct .colon || t.isPunct .dot) = false)
    (hf : ∀ parts, parts.map (fun ss => ".".intercalate ss) = declaredType →
      Reads text (f parts) us vs ok) :
    Reads text (do
      let typed ← accept .colon
      if typed = true then (some <$> dottedName "a type name") >>= f else pure none >>= f)
      (ts ++ us) vs ok := by
  have hcolon : us.head?.any (fun t => t.isPunct .colon) = false := by
    cases us <;> simp_all
  have hdot : us.head?.any (fun t => t.isPunct .dot) = false := by
    cases us <;> simp_all
  cases declaredType with
  | none =>
    obtain rfl := hs.eq_nil
    refine (reads_accept_not hcolon).bind fun typed htyped => ?_
    subst htyped
    exact hf none rfl
  | some s =>
    obtain ⟨colon, ts, rfl, hmark, hs⟩ := hs.token rfl
    obtain ⟨parts, ts, rfl, ⟨first, more, hname, hpath⟩, hs⟩ := hs.space.uncons
    obtain rfl := hs.eq_nil
    rw [List.append_nil]
    refine (reads_accept hmark).bind fun typed htyped => ?_
    subst htyped
    have htype : Reads text (some <$> dottedName "a type name") (parts ++ us) us
        (· = some (first :: more)) :=
      (reads_dottedName hpath hdot _).map fun _ h => congrArg some h
    refine htype.bind fun parts hparts => hf parts ?_
    rw [hparts, hname]
    rfl

theorem reads_readDeclare {target : String} {declaredType : Option String} {value : Option Source}
    (hvalue : ∀ s ∈ value, s.Printable)
    (hs : Spelled text (space :: .name target ::
      (Kind.typeItems declaredType ++ Kind.valueItems value)) ts) (hus : Stopped us) :
    Reads text readDeclare (ts ++ us) us (· = .declare target declaredType value) := by
  obtain ⟨word, ts, rfl, hword, hs⟩ := hs.space.token rfl
  obtain ⟨typed, stored, rfl, htype, hstored⟩ := hs.append
  unfold readDeclare
  rw [List.cons_append, List.append_assoc]
  refine (reads_name hword _).bind fun name hname => ?_
  subst hname
  cases value with
  | none =>
    obtain rfl := hstored.eq_nil
    refine reads_type htype ?_ fun parts hparts => ?_
    · have hcolon := hus.isPunct .colon
      have hdot := hus.isPunct .dot
      cases us <;> simp_all
    refine (reads_accept_not (hus.isPunct .assign)).bind fun found hfound => ?_
    subst hfound
    exact reads_pure (by rw [hparts])
  | some value =>
    obtain ⟨assign, rest, rfl, hassign, hstored⟩ := hstored.space.token rfl
    refine reads_type htype ?_ fun parts hparts => ?_
    · simp [Token.isPunct, hassign]
    refine (reads_accept hassign).bind fun found hfound => ?_
    subst hfound
    have hread : Reads text (some <$> readSource) (rest ++ us) us (· = some value) :=
      (reads_readSource (hvalue value rfl) hstored.space hus).map fun _ h => congrArg some h
    exact hread.bind fun stored hstored => reads_pure (by rw [hparts, hstored])

theorem reads_readAssign {target : String} {value : Source} (hvalue : value.Printable)
    (hs : Spelled text (.name target :: space :: .mark .assign :: space :: value.items) ts)
    (hus : Stopped us) : Reads text readAssign (ts ++ us) us (· = .assign target value) := by
  obtain ⟨word, ts, rfl, hword, hs⟩ := hs.token rfl
  obtain ⟨assign, ts, rfl, hassign, hs⟩ := hs.space.token rfl
  unfold readAssign
  refine (reads_name hword _).bind fun name hname => ?_
  refine (reads_mark hassign _).bind fun _ _ => ?_
  refine (reads_readSource hvalue hs.space hus).bind fun value hvalue => reads_pure ?_
  rw [hname, hvalue]

theorem reads_readReturn {value : Option SourceExpr} (hvalue : ∀ e ∈ value, e.OnLine)
    (hs : Spelled text ((Kind.returnValue value).items []) ts) (hus : Stopped us) :
    ∃ t rest, ts = t :: rest ∧ t.lexeme = .keyword .return_ ∧
      Reads text readReturn (rest ++ us) us (· = .returnValue value) := by
  unfold readReturn
  cases value with
  | none =>
    obtain ⟨word, ts, rfl, hword, hs⟩ := hs.token rfl
    obtain rfl := hs.eq_nil
    refine ⟨word, [], rfl, hword, reads_get fun passed => ?_⟩
    have hend : Cursor.isAtStatementEnd ⟨text, passed, us⟩ = true :=
      isAtStatementEnd_of_stopped hus passed
    rw [List.nil_append, if_pos hend]
    exact reads_pure rfl
  | some e =>
    obtain ⟨word, ts, rfl, hword, hs⟩ := hs.token rfl
    obtain ⟨used, ts, rfl, hspells, hs⟩ := hs.space.uncons
    obtain rfl := hs.eq_nil
    have hread := reads_restOfStatement (hvalue e rfl) hspells hus "the return value"
    obtain ⟨own, hfills⟩ := hvalue e rfl
    obtain ⟨t, rest, rfl, ht⟩ := exists_cons_of_fills (fun _ _ _ => rfl) hfills
      (quotes_of_spells hspells hfills.toOwns)
    refine ⟨word, _, rfl, hword, reads_get fun passed => ?_⟩
    have hgo : ¬Cursor.isAtStatementEnd ⟨text, passed, t :: rest ++ us⟩ = true := by
      simp only [endsExpression, Bool.or_eq_false_iff] at ht
      simp [Cursor.isAtStatementEnd, Cursor.head?, ht.1.1.1, ht.1.2]
    rw [List.append_nil, if_neg hgo]
    exact hread.bind fun e he => reads_pure (by rw [he])

/-! ## Task blocks -/

theorem reads_readTaskKey {t : Token} {key : String} (ht : t.lexeme = .str key) :
    Reads text readTaskKey (t :: us) us (· = key) := by
  obtain ⟨l, _, _, _⟩ := t
  cases ht
  exact fun passed => ⟨key, _, rfl, rfl⟩

theorem isLineEnd_of_lexeme {t : Token} {semicolon : Bool} (h : t.lexeme = .lineEnd semicolon) :
    t.isLineEnd = true := by rw [Token.isLineEnd, h]; rfl

theorem cons_of_entries {tasks : List TaskEntry}
    (hs : Spelled text (tasks.flatMap TaskEntry.items ++ [feed, .mark .closeBrace]) ts) :
    ∃ t rest, ts = t :: rest ∧ t.isLineEnd = true := by
  have hfirst : ∃ t rest, ts = t :: rest ∧ t.lexeme = .lineEnd false := by
    cases tasks with
    | nil =>
      obtain ⟨t, rest, rfl, ht, -⟩ := hs.token rfl
      exact ⟨t, rest, rfl, ht⟩
    | cons entry tasks =>
      obtain ⟨t, rest, rfl, ht, -⟩ := hs.token rfl
      exact ⟨t, rest, rfl, ht⟩
  obtain ⟨t, rest, rfl, ht⟩ := hfirst
  exact ⟨t, rest, rfl, isLineEnd_of_lexeme ht⟩

theorem reads_readTaskEntries {tasks : List TaskEntry} {n : Nat} {seen : List String}
    (hnodup : (tasks.map TaskEntry.key).Nodup) (hseen : ∀ entry ∈ tasks, entry.key ∉ seen)
    (hcalls : ∀ entry ∈ tasks, entry.call.Printable)
    (hs : Spelled text (tasks.flatMap TaskEntry.items ++ [feed, .mark .closeBrace]) ts)
    (hn : ts.length ≤ n) : Reads text (readTaskEntries n seen) (ts ++ us) us fun entries =>
      entries.map View.withoutLines.entry = tasks.map View.withoutLines.entry := by
  induction tasks generalizing n seen ts with
  | nil =>
    obtain ⟨gap, ts, rfl, hgap, hs⟩ := hs.token rfl
    obtain ⟨brace, ts, rfl, hbrace, hs⟩ := hs.token rfl
    obtain rfl := hs.eq_nil
    obtain ⟨n, rfl⟩ : ∃ m, n = m + 1 := ⟨n - 1, by simp at hn; omega⟩
    unfold readTaskEntries
    refine (reads_skipOne ?_ ?_).bind fun _ _ => ?_
    · simp [isEntryGap, Token.isLineEnd, hgap, Lexeme.isLineEnd]
    · simp [isEntryGap, Token.isLineEnd, Token.isPunct, hbrace, Lexeme.isLineEnd]
    refine (reads_accept hbrace).bind fun found hfound => ?_
    subst hfound
    exact reads_pure rfl
  | cons entry tasks ih =>
    obtain ⟨hkey, hnodup⟩ := List.nodup_cons.mp hnodup
    obtain ⟨hnew, hseen⟩ := List.forall_mem_cons.mp hseen
    obtain ⟨hcall, hcalls⟩ := List.forall_mem_cons.mp hcalls
    rw [List.flatMap_cons, List.append_assoc] at hs
    obtain ⟨first, more, rfl, hfirst, hmore⟩ := hs.append
    obtain ⟨gap, ts, rfl, hgap, hfirst⟩ := hfirst.token rfl
    obtain ⟨word, ts, rfl, hword, hfirst⟩ := hfirst.token rfl
    obtain ⟨colon, ts, rfl, hcolon, hfirst⟩ := hfirst.token rfl
    simp only [List.cons_append, List.length_cons, List.length_append] at hn
    obtain ⟨n, rfl⟩ : ∃ m, n = m + 1 := ⟨n - 1, by omega⟩
    unfold readTaskEntries
    simp only [List.cons_append, List.append_assoc]
    refine (reads_skipOne ?_ ?_).bind fun _ _ => ?_
    · simp [isEntryGap, Token.isLineEnd, hgap, Lexeme.isLineEnd]
    · simp [isEntryGap, Token.isLineEnd, Token.isPunct, hword, Lexeme.isLineEnd]
    refine (reads_accept_not (by simp [Token.isPunct, hword])).bind fun found hfound => ?_
    subst hfound
    refine reads_line.bind fun line _ => (reads_readTaskKey hword).bind fun key hread => ?_
    subst hread
    rw [if_neg (by simpa using hnew)]
    refine (reads_mark hcolon _).bind fun _ _ => ?_
    refine (reads_invocation hcall hfirst.space).bind fun call hread => reads_get fun passed => ?_
    subst hread
    obtain ⟨next, rest, rfl, hnext⟩ := cons_of_entries hmore
    rw [if_pos (by simp [Cursor.isAtStatementEnd, Cursor.head?, hnext])]
    have hseen' : ∀ entry' ∈ tasks, entry'.key ∉ entry.key :: seen := by
      intro entry' hentry' hmem
      obtain heq | hmem := List.mem_cons.mp hmem
      · exact hkey (heq ▸ List.mem_map_of_mem hentry')
      · exact hseen entry' hentry' hmem
    refine (ih hnodup hseen' hcalls hmore (by omega)).bind fun entries h => reads_pure ?_
    rw [List.map_cons, List.map_cons, h]
    rfl

theorem reads_readTaskBlock {target : String} {tasks : List TaskEntry}
    (hnodup : (tasks.map TaskEntry.key).Nodup) (hcalls : ∀ entry ∈ tasks, entry.call.Printable)
    (hs : Spelled text (space :: .name target :: space ::
      PrintItem.braced (tasks.flatMap TaskEntry.items)) ts) :
    Reads text readTaskBlock (ts ++ us) us fun kind =>
      View.withoutLines.kind kind = View.withoutLines.kind (.taskBlock target tasks) := by
  obtain ⟨word, ts, rfl, hword, hs⟩ := hs.space.token rfl
  obtain ⟨brace, ts, rfl, hbrace, hs⟩ := hs.space.token rfl
  unfold readTaskBlock
  simp only [List.cons_append]
  refine (reads_name hword _).bind fun name hname => (reads_mark hbrace _).bind fun _ _ => ?_
  refine reads_get fun passed => ?_
  have hlen : ts.length ≤ (ts ++ us).length := List.length_append ▸ Nat.le_add_right _ _
  refine (reads_readTaskEntries hnodup (fun _ _ => List.not_mem_nil) hcalls hs hlen).bind
    fun entries h => reads_pure ?_
  rw [View.kind, View.kind, h, hname]

/-! ## Choosing the rule -/

/-- The statements are the same on other lines. -/
def Same (s s' : Statement) : Prop :=
  View.withoutLines.statement s' = View.withoutLines.statement s

def SameAll (ss ss' : List Statement) : Prop :=
  View.withoutLines.statements ss' = View.withoutLines.statements ss

theorem same_ofLine {kind kind' : Kind} {line line' : Nat}
    (h : View.withoutLines.kind kind' = View.withoutLines.kind kind) :
    Same (ofLine kind line) (ofLine kind' line') := by
  rw [Same, View.statement_ofLine, View.statement_ofLine, h]
  rfl

theorem same_ofBlock {kind : Kind} {line line' : Nat} {ss ss' : List Statement}
    (h : SameAll ss ss') : Same (ofBlock kind line ss) (ofBlock kind line' ss') := by
  rw [Same, View.statement_ofBlock, View.statement_ofBlock, h]
  rfl

theorem sameAll_nil : SameAll [] [] := rfl

theorem SameAll.cons {s s' : Statement} {ss ss' : List Statement} (h : Same s s')
    (hs : SameAll ss ss') : SameAll (s :: ss) (s' :: ss') := by
  rw [SameAll, View.statements_cons, View.statements_cons, h, hs]

section

variable {block : Terminator → Reading (List Statement)} {t : Token} {ok : Statement → Prop}

theorem reads_readOne (label : String) (rule : Reading Statement) (token : Token)
    (hrule : ∀ passed, rule? block ⟨text, passed, ts⟩ = some (label, rule))
    (h : Reads text rule ts us ok) (hus : Stopped us) :
    Reads text (readOne block token) ts us ok := by
  unfold readOne
  refine reads_get fun passed => ?_
  rw [hrule]
  refine h.bind fun s hs => ?_
  have hend : Reads text (endOf label) us us fun _ => True := by
    refine reads_get fun passed => ?_
    rw [if_pos (isAtStatementEnd_of_stopped hus passed)]
    exact reads_pure trivial
  exact hend.bind fun _ _ => reads_pure hs

theorem reads_afterKeyword {word : Keyword} {rule : Reading Statement} (token : Token)
    (ht : t.lexeme = .keyword word) (hrule : afterKeyword? block t.line word = some rule)
    (h : Reads text rule ts us ok) (hus : Stopped us) :
    Reads text (readOne block token) (t :: ts) us ok := by
  refine reads_readOne word.text (advance 1 *> rule) token (fun passed => ?_) ?_ hus
  · have hline : Cursor.line ⟨text, passed, t :: ts⟩ = t.line := rfl
    rw [rule?, Cursor.head?, List.head?_cons, Option.map_some, ht]
    dsimp only
    rw [hline, hrule]
    rfl
  · rw [seqRight_eq_bind]
    exact (reads_advance t ts).bind fun _ _ => h

/-- A statement on a line is read again. -/
theorem reads_onLine {kind : Kind} (h : kind.OnLine) (hs : Spelled text (kind.items []) ts)
    (hus : Stopped us) (token : Token) (line : Nat) :
    Reads text (readOne block token) (ts ++ us) us (Same (ofLine kind line)) := by
  have hsame {r : Reading Kind} {ts : List Token} {kind : Kind} {line line' : Nat}
      (h : Reads text r ts us (· = kind)) :
      Reads text ((ofLine · line') <$> r) ts us (Same (ofLine kind line)) :=
    h.map fun kind' hkind => same_ofLine (congrArg _ hkind)
  have hexpr (kind : SourceExpr → Kind) {e : SourceExpr} (he : e.OnLine) {ts : List Token}
      (hs : Spelled text [space, expr e] ts) (what : String) (line' : Nat) :
      Reads text (do return ofLine (kind (← restOfStatement what)) line') (ts ++ us) us
        (Same (ofLine (kind e) line)) := by
    obtain ⟨used, ts, rfl, hspells, hs⟩ := hs.space.uncons
    obtain rfl := hs.eq_nil
    rw [List.append_nil]
    refine (reads_restOfStatement he hspells hus what).bind fun e' he' => reads_pure ?_
    rw [he']
    exact same_ofLine rfl
  obtain ⟨hshape, hkind⟩ := h
  cases kind <;> first | (cases hshape; done) | skip
  case importPath imported localName =>
    obtain ⟨t, ts, rfl, ht, hs⟩ := hs.token rfl
    exact reads_afterKeyword token ht rfl (hsame (reads_readImport hs)) hus
  case declare target declaredType value =>
    obtain ⟨t, ts, rfl, ht, hs⟩ := hs.token rfl
    exact reads_afterKeyword token ht rfl (hsame (reads_readDeclare hkind.2.2 hs hus)) hus
  case assign target value =>
    have hread := reads_readAssign hkind.2 hs hus
    obtain ⟨t, ts, rfl, ht, hs⟩ := hs.token rfl
    obtain ⟨u, ts, rfl, hu, hs⟩ := hs.space.token rfl
    refine reads_readOne "assignment" ((ofLine · t.line) <$> readAssign) token (fun passed => ?_)
      (hsame hread) hus
    obtain ⟨l, _, _, _⟩ := t
    cases ht
    exact if_pos (decide_eq_true hu)
  case run call =>
    obtain ⟨t, ts, rfl, ht, hs⟩ := hs.token rfl
    refine reads_afterKeyword token ht rfl ?_ hus
    refine (reads_invocation hkind hs.space).bind fun call' hcall => reads_pure ?_
    rw [hcall]
    exact same_ofLine rfl
  case taskBlock target tasks =>
    obtain ⟨t, ts, rfl, ht, hs⟩ := hs.token rfl
    refine reads_afterKeyword token ht rfl (Reads.map ?_ fun _ => same_ofLine) hus
    exact reads_readTaskBlock hkind.2.1 hkind.2.2 hs
  case exportValue e =>
    obtain ⟨t, ts, rfl, ht, hs⟩ := hs.token rfl
    exact reads_afterKeyword token ht rfl (hexpr .exportValue hkind hs _ _) hus
  case echo e =>
    obtain ⟨t, ts, rfl, ht, hs⟩ := hs.token rfl
    exact reads_afterKeyword token ht rfl (hexpr .echo hkind hs _ _) hus
  case returnValue value =>
    obtain ⟨t, ts, rfl, ht, hread⟩ := reads_readReturn hkind hs hus
    exact reads_afterKeyword token ht rfl (hsame hread) hus
  case call call =>
    have hread : Reads text invocation (ts ++ us) us (· = call) := reads_invocation hkind.2 hs
    obtain ⟨path, ts, rfl, ⟨first, more, hname, hpath⟩, hs⟩ := hs.uncons
    obtain ⟨paren, ts, rfl, hparen, hs⟩ := hs.token rfl
    obtain rfl := IsName.parts_eq hkind.1 hname
    obtain ⟨⟨l, line', start, stop⟩, path, rfl, rfl, hmore⟩ := List.map_eq_cons_iff.mp hpath
    obtain rfl : path = [] := List.map_eq_nil_iff.mp hmore
    refine reads_readOne "call" (do return ofLine (.call (← invocation)) line') token
      (fun passed => ?_) (hread.bind fun call' hcall => reads_pure ?_) hus
    · have hassign : paren.isPunct .assign = false := by rw [Token.isPunct, hparen]; rfl
      have hopen : paren.isPunct .openParen = true := decide_eq_true hparen
      show (if paren.isPunct .assign = true then _ else if paren.isPunct .openParen = true then _
        else _) = _
      rw [hassign, hopen]
      rfl
    · rw [hcall]
      exact same_ofLine rfl
  all_goals
    obtain ⟨t, ts, rfl, ht, hs⟩ := hs.token rfl
    obtain rfl := hs.eq_nil
    exact reads_afterKeyword token ht rfl (reads_pure (same_ofLine rfl)) hus

end

end Statement

end PipelineScript
