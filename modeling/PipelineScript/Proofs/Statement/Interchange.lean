import Mathlib
import PipelineScript.Proofs.Statement.Fillings
import PipelineScript.Proofs.Statement.Holes
import PipelineScript.Proofs.Statement.Layout

/-! # Where one expression may stand, every expression may stand

A script in which the name of a system variable is an expression stays a script with any other
expression in its place. Its statements are the same but for that place, and there the expression
has the tree that it has on its own (`Statement.ofSource_interchange`). The one exception is the
value of a case, which ends before its first colon outside of brackets. -/

namespace PipelineScript

open Text

namespace Cell

variable {x : Cell} {stop : Token → Bool}

/-- Whoever passes over the name of a system variable passes over it if it is the same name. -/
theorem Plain.passable (h : x.Plain)
    (hname : ∀ t name, t.lexeme = .systemIdent name → stop t = false) : x.Passable stop := by
  intro hfilled t ht
  obtain ⟨t', hmany, hl⟩ := h
  obtain ⟨name, hsystem⟩ := hfilled.system
  have hmem := Lexeme.outside_subset_self 0 _ ht
  rw [hmany, List.map_singleton, List.mem_singleton] at hmem
  exact hname t name (hmem.trans (hl.trans hsystem))

end Cell

namespace Socket

open Token

variable (s : Socket) (x : Token) {e : List Char} {own ts us : List Token} {xs : List Cell}

theorem not_infix_before : ¬ s.word <:+: s.before := by
  rintro ⟨as, ds, h⟩
  have hlen := congrArg List.length (s.once as (ds ++ s.word ++ ' ' :: s.after) (by rw [← h]; simp))
  have hpos := List.length_pos_iff.mpr s.ne_nil
  have hbefore := congrArg List.length h
  simp only [List.length_append] at hbefore
  omega

theorem not_infix_after : ¬ s.word <:+: ' ' :: s.after := by
  rintro ⟨as, ds, h⟩
  have hlen := congrArg List.length (s.once (s.before ++ s.word ++ as) ds (by rw [← h]; simp))
  have hpos := List.length_pos_iff.mpr s.ne_nil
  simp only [List.length_append] at hlen
  omega

/-! ## What stands at the place -/

/-- The expression with `e` at the place. -/
def fill (e : List Char) (d : SourceExpr) : SourceExpr :=
  ⟨String.ofList (trim (Text.fill s.word e d.source.toList))⟩

theorem fill_elsewhere {m : List Char} (h : ¬ s.word <:+: m) (e : List Char) :
    s.fill e ⟨String.ofList (trim m)⟩ = ⟨String.ofList (trim m)⟩ := by
  obtain ⟨u, -, hm⟩ := exists_trimStart m
  obtain ⟨u', -, hm'⟩ := exists_trimEnd (trimStart m)
  have htrim : trim m <:+: m := by
    refine ⟨u, u', ?_⟩
    rw [List.append_assoc, trim, ← hm', ← hm]
  have hself := fill_eq_self (fun hword => h (hword.trans htrim)) e
  rw [fill, String.toList_ofList, hself, trim_eq_self (trimmed_trim m)]

theorem fill_across {l p q r : List Char} (hbefore : s.before = l ++ p)
    (hafter : ' ' :: s.after = q ++ r) (e : List Char) :
    s.fill e ⟨String.ofList (trim (p ++ s.word ++ q))⟩ = ⟨String.ofList (trim (p ++ e ++ q))⟩ := by
  obtain ⟨u, hu, hp⟩ := exists_trimStart p
  obtain ⟨u', hu', hq⟩ := exists_trimEnd q
  rw [fill, String.toList_ofList, trim_around s.ne_nil s.solid]
  obtain ⟨as, ds, hcs, hfill⟩ := exists_fill s.ne_nil
    (⟨trimStart p, trimEnd q, rfl⟩ : s.word <:+: trimStart p ++ s.word ++ trimEnd q) e
  have hfirst : as = trimStart p := by
    have hplace := s.once (l ++ u ++ as) (ds ++ u' ++ r) (by
      calc s.before ++ s.word ++ ' ' :: s.after
          = l ++ (u ++ trimStart p) ++ s.word ++ (trimEnd q ++ u' ++ r) := by
            rw [← hp, ← hq, hbefore, hafter]
        _ = l ++ u ++ (trimStart p ++ s.word ++ trimEnd q) ++ u' ++ r := by
            simp only [List.append_assoc]
        _ = _ := by rw [hcs]; simp only [List.append_assoc])
    have hbefore' : s.before = l ++ u ++ trimStart p := by rw [hbefore, List.append_assoc, ← hp]
    exact List.append_cancel_left (hplace.trans hbefore')
  subst hfirst
  rw [hfill, ← List.append_cancel_left hcs, ← trim_within hu hu']
  have hall : p ++ e ++ q = u ++ (trimStart p ++ e ++ trimEnd q) ++ u' := by
    calc p ++ e ++ q = u ++ trimStart p ++ e ++ (trimEnd q ++ u') := by rw [← hp, ← hq]
      _ = _ := by simp only [List.append_assoc]
  rw [hall]

/-! ## Both texts, cell by cell -/

/-- A token before the place. -/
def plainAhead (t : Token) : Cell := ⟨t, [t]⟩

/-- A token behind the place. -/
def plainBehind (e : List Char) (t : Token) : Cell := ⟨s.beyond s.word t, [s.beyond e t]⟩

/-- The name at the place, and the tokens of `e`. -/
def filled (own : List Token) : Cell := ⟨s.within x, own.map s.within⟩

def cells (e : List Char) (own : List Token) : List Cell :=
  (uncommented s.ahead).map plainAhead ++
    s.filled x own :: (uncommented s.behind).map (s.plainBehind e)

theorem ones_ahead (ts : List Token) : Cell.ones (ts.map plainAhead) = ts := by
  rw [Cell.ones, List.map_map]
  exact List.map_id ts

theorem manys_ahead (ts : List Token) : Cell.manys (ts.map plainAhead) = ts := by
  induction ts with
  | nil => rfl
  | cons t ts ih => rw [List.map_cons, Cell.manys_cons, ih]; rfl

theorem ones_behind (e : List Char) (ts : List Token) :
    Cell.ones (ts.map (s.plainBehind e)) = ts.map (s.beyond s.word) := by
  rw [Cell.ones, List.map_map]
  rfl

theorem manys_behind (e : List Char) (ts : List Token) :
    Cell.manys (ts.map (s.plainBehind e)) = ts.map (s.beyond e) := by
  induction ts with
  | nil => rfl
  | cons t ts ih => rw [List.map_cons, Cell.manys_cons, ih]; rfl

theorem ones_across (e : List Char) (own ts us : List Token) :
    Cell.ones (ts.map plainAhead ++ s.filled x own :: us.map (s.plainBehind e)) =
      ts ++ [x].map s.within ++ us.map (s.beyond s.word) := by
  rw [Cell.ones_append, Cell.ones_cons, ones_ahead, ones_behind, List.append_assoc]
  rfl

theorem manys_across (e : List Char) (own ts us : List Token) :
    Cell.manys (ts.map plainAhead ++ s.filled x own :: us.map (s.plainBehind e)) =
      ts ++ own.map s.within ++ us.map (s.beyond e) := by
  rw [Cell.manys_append, Cell.manys_cons, manys_ahead, manys_behind, List.append_assoc]
  rfl

/-- A row of cells lies before the place, behind it, or across it. -/
theorem row_cases (h : xs <:+: s.cells x e own) :
    (∃ ts, ts <:+: uncommented s.ahead ∧ xs = ts.map plainAhead) ∨
    (∃ ts, ts <:+: uncommented s.behind ∧ xs = ts.map (s.plainBehind e)) ∨
    ∃ ts us, ts <:+ uncommented s.ahead ∧ us <+: uncommented s.behind ∧
      xs = ts.map plainAhead ++ s.filled x own :: us.map (s.plainBehind e) := by
  have hacross {ts ys : List Cell} (hts : ts <:+ (uncommented s.ahead).map plainAhead)
      (hys : ys <+: s.filled x own :: (uncommented s.behind).map (s.plainBehind e)) :
      (∃ us, us <:+: uncommented s.ahead ∧ ts ++ ys = us.map plainAhead) ∨
      ∃ us vs, us <:+ uncommented s.ahead ∧ vs <+: uncommented s.behind ∧
        ts ++ ys = us.map plainAhead ++ s.filled x own :: vs.map (s.plainBehind e) := by
    obtain ⟨us, hus, rfl⟩ := List.suffix_map_iff.mp hts
    rcases List.prefix_cons_iff.mp hys with rfl | ⟨vs, rfl, hvs⟩
    · exact .inl ⟨us, hus.isInfix, List.append_nil _⟩
    · obtain ⟨ws, hws, rfl⟩ := List.prefix_map_iff.mp hvs
      exact .inr ⟨us, ws, hus, hws, rfl⟩
  rcases List.infix_append_iff.mp h with h | h | ⟨ts, ys, rfl, hts, hys⟩
  · obtain ⟨us, hus, rfl⟩ := List.infix_map_iff.mp h
    exact .inl ⟨us, hus, rfl⟩
  · rcases List.infix_cons_iff.mp h with h | h
    · rcases hacross List.nil_suffix h with h | h
      · exact .inl h
      · exact .inr (.inr h)
    · obtain ⟨us, hus, rfl⟩ := List.infix_map_iff.mp h
      exact .inr (.inl ⟨us, hus, rfl⟩)
  · rcases hacross hts hys with h | h
    · exact .inl h
    · exact .inr (.inr h)

/-- The name that stands at the place is that of a system variable. -/
structure IsMark (x : Token) : Prop where
  scan : Token.scan 1 0 s.word = .ok [x]
  system : ∃ name, x.lexeme = .systemIdent name

end Socket

/-- A text with these tokens may stand at the place of a name. -/
structure FreeText (e : List Char) (own : List Token) : Prop where
  scan : Token.scan 1 0 e = .ok own
  plain : ∀ t ∈ own, t.lexeme.isComment = false
  balanced : Token.Balanced own
  begins : ∃ t ts, own = t :: ts ∧ t.lexeme.mayBegin = true
  free : ∀ l ∈ Lexeme.outside 0 (own.map Token.lexeme), l.mayStandFree = true

theorem FreeText.ne_nil {e : List Char} {own : List Token} (h : FreeText e own) : own ≠ [] := by
  obtain ⟨t, ts, rfl, -⟩ := h.begins
  exact List.cons_ne_nil t ts

namespace Socket

open Token

variable {s : Socket} {x : Token} {e : List Char} {own ts us : List Token} {xs : List Cell}

theorem lexemes_within (own : List Token) :
    (own.map s.within).map Token.lexeme = own.map Token.lexeme := by
  rw [List.map_map]
  rfl

theorem filled_filled (hx : s.IsMark x) (he : FreeText e own) : (s.filled x own).Filled where
  system := hx.system
  begins := by
    obtain ⟨t, ts, rfl, ht⟩ := he.begins
    exact ⟨_, _, rfl, ht⟩
  balanced := by
    show Lexeme.nest [] ((own.map s.within).map Token.lexeme) = some []
    rw [lexemes_within]
    exact he.balanced
  free := by
    show ∀ l ∈ Lexeme.outside 0 ((own.map s.within).map Token.lexeme), _
    rw [lexemes_within]
    exact he.free

theorem plain_ahead (t : Token) : (plainAhead t).Plain := ⟨t, rfl, rfl⟩

theorem plain_behind (e : List Char) (t : Token) : (s.plainBehind e t).Plain :=
  ⟨s.beyond e t, rfl, rfl⟩

theorem fit_cells (hx : s.IsMark x) (he : FreeText e own) : Cell.Fit (s.cells x e own) := by
  refine List.forall_mem_append.mpr ⟨?_, List.forall_mem_cons.mpr ⟨.inr (filled_filled hx he), ?_⟩⟩
  · exact List.forall_mem_map.mpr fun t _ => .inl (plain_ahead t)
  · exact List.forall_mem_map.mpr fun t _ => .inl (plain_behind e t)

theorem slice_cells (hx : s.IsMark x) (he : FreeText e own) (hxs : xs <:+: s.cells x e own) :
    Cursor.sourceOf? (s.text e) (Cell.manys xs) =
      (Cursor.sourceOf? (s.text s.word) (Cell.ones xs)).map (s.fill e) := by
  rcases s.row_cases x hxs with ⟨ts, hts, rfl⟩ | ⟨ts, hts, rfl⟩ | ⟨ts, us, hts, hus, rfl⟩
  · rw [ones_ahead, manys_ahead]
    by_cases hne : ts = []
    · rw [hne]
      rfl
    obtain ⟨m, hm, hslice⟩ := s.exists_slice_ahead hts hne
    rw [hslice, hslice, Option.map_some,
      s.fill_elsewhere fun hword => s.not_infix_before (hword.trans hm)]
  · rw [ones_behind, manys_behind]
    by_cases hne : ts = []
    · rw [hne]
      rfl
    obtain ⟨m, hm, hslice⟩ := s.exists_slice_behind hts hne
    rw [hslice, hslice, Option.map_some,
      s.fill_elsewhere fun hword => s.not_infix_after (hword.trans hm)]
  · obtain ⟨l, p, q, r, hbefore, hafter, hslice⟩ := s.exists_slice_across hts hus
    have hone := hslice s.word [x] hx.scan (List.cons_ne_nil _ _)
    have hmany := hslice e own he.scan he.ne_nil
    rw [ones_across, manys_across, hone, hmany, Option.map_some, s.fill_across hbefore hafter]

/-- No colon outside of brackets gets into the expression. -/
def Calm (s : Socket) (own : List Token) (d : SourceExpr) : Prop :=
  s.word <:+: d.source.toList → .punct .colon ∉ Lexeme.outside 0 (own.map Token.lexeme)

theorem passable_plain {y : Cell} (hy : y.Plain) : y.Passable fun t => t.isPunct .colon :=
  hy.passable fun _ _ h => decide_eq_false fun hcolon => by cases hcolon.symm.trans h

theorem colonless_cells (hx : s.IsMark x) {d : SourceExpr} (hxs : xs <:+: s.cells x e own)
    (hd : Cursor.sourceOf? (s.text s.word) (Cell.ones xs) = some d) (hcalm : s.Calm own d) :
    ∀ y ∈ xs, y.Passable fun t => t.isPunct .colon := by
  have hahead (ts : List Token) :
      ∀ y ∈ ts.map plainAhead, y.Passable fun t => t.isPunct .colon :=
    List.forall_mem_map.mpr fun t _ => passable_plain (plain_ahead t)
  have hbehind (ts : List Token) :
      ∀ y ∈ ts.map (s.plainBehind e), y.Passable fun t => t.isPunct .colon :=
    List.forall_mem_map.mpr fun t _ => passable_plain (plain_behind e t)
  rcases s.row_cases x hxs with ⟨ts, -, rfl⟩ | ⟨ts, -, rfl⟩ | ⟨ts, us, hts, hus, rfl⟩
  · exact hahead ts
  · exact hbehind ts
  · refine List.forall_mem_append.mpr ⟨hahead ts, List.forall_mem_cons.mpr ⟨?_, hbehind us⟩⟩
    obtain ⟨l, p, q, r, -, -, hslice⟩ := s.exists_slice_across hts hus
    rw [ones_across, hslice s.word [x] hx.scan (List.cons_ne_nil _ _)] at hd
    cases hd
    -- the row has the name in its text
    have hword : s.word <:+: trim (p ++ s.word ++ q) := by
      rw [trim_around s.ne_nil s.solid]
      exact ⟨trimStart p, trimEnd q, rfl⟩
    rw [Calm, String.toList_ofList] at hcalm
    intro _ t ht
    refine decide_eq_false fun hcolon => hcalm hword ?_
    rw [← hcolon, ← s.lexemes_within own]
    exact ht

/-- The text with the name at the place, and with `e` there. -/
def filling (hx : s.IsMark x) (he : FreeText e own) (hbalanced : Token.Balanced
    (Cell.ones (s.cells x e own))) : Filling where
  fill := s.fill e
  calm := s.Calm own
  text := s.text s.word
  text' := s.text e
  cells := s.cells x e own
  fit := fit_cells hx he
  balanced := hbalanced
  slice _ hxs := slice_cells hx he hxs
  colonless _ _ hxs hd hcalm := colonless_cells hx hxs hd hcalm

theorem uncommented_map {f : Token → Token} (hf : ∀ t, (f t).lexeme = t.lexeme) (ts : List Token) :
    uncommented (ts.map f) = (uncommented ts).map f := by
  rw [uncommented, List.filter_map, uncommented]
  congr 1
  exact List.filter_congr fun t _ => by rw [Function.comp_apply, hf]

theorem uncommented_text (hplain : ∀ t ∈ own, t.lexeme.isComment = false) (e : List Char) :
    uncommented (s.ahead ++ (own.map s.within ++ s.behind.map (s.beyond e))) =
      uncommented s.ahead ++ own.map s.within ++ (uncommented s.behind).map (s.beyond e) := by
  have hown : uncommented own = own :=
    List.filter_eq_self.mpr fun t ht => by rw [hplain t ht]; rfl
  have hwithin := uncommented_map (f := s.within) (fun _ => rfl) own
  have hbeyond := uncommented_map (f := s.beyond e) (fun _ => rfl) s.behind
  rw [uncommented_append, uncommented_append, hwithin, hbeyond, hown, List.append_assoc]

theorem IsMark.plain (h : s.IsMark x) : ∀ t ∈ [x], t.lexeme.isComment = false := by
  obtain ⟨name, hname⟩ := h.system
  refine List.forall_mem_singleton.mpr ?_
  rw [hname]
  rfl

theorem uncommented_ones (hx : s.IsMark x) (e : List Char) (own : List Token) :
    uncommented (s.ahead ++ ([x].map s.within ++ s.behind.map (s.beyond s.word))) =
      Cell.ones (s.cells x e own) :=
  (uncommented_text hx.plain s.word).trans (s.ones_across x e own _ _).symm

theorem uncommented_manys (he : FreeText e own) (x : Token) :
    uncommented (s.ahead ++ (own.map s.within ++ s.behind.map (s.beyond e))) =
      Cell.manys (s.cells x e own) :=
  (uncommented_text he.plain e).trans (s.manys_across x e own _ _).symm

end Socket

theorem FreeText.of_expression {e : String} {own : List Token} {tree : Expression}
    (hown : Token.ofSource e = .ok own) (htree : Expression.ofSource e = .ok tree)
    (hcomment : ∀ t ∈ own, t.lexeme.isComment = false)
    (hline : ∀ l ∈ Lexeme.outside 0 (own.map Token.lexeme), l.isLineEnd = false) :
    FreeText e.toList own := by
  obtain ⟨hcheck, hscan⟩ := Token.ofSource_eq_ok.mp hown
  obtain ⟨hbegins, hfree⟩ := Token.free_of_expression hown htree hcomment hline
  exact ⟨hscan, hcomment, (Balance.check_eq_ok_iff (Token.scans_of_scan hscan)).mp hcheck,
    hbegins, hfree⟩

/-- Without the blanks at its ends an expression has the same tree. -/
theorem Expression.ofSource_trimText {e : String} {own : List Token} {tree : Expression}
    (hown : Token.ofSource e = .ok own) (htree : Expression.ofSource e = .ok tree) :
    Expression.ofSource (trimText e) = .ok tree := by
  have hscan := (Token.ofSource_eq_ok.mp hown).2
  obtain ⟨offset, ts, htrim, hcode⟩ := (Token.scans_of_scan hscan).trim
  obtain ⟨own', hown', hlexemes⟩ := htrim.scan 1 0
  have hcode' : Token.code own = Token.code own' := by
    rw [← hcode, Token.code, Token.code, hlexemes]
  have hsame : SourceExpr.tree? ⟨e⟩ = SourceExpr.tree? ⟨trimText e⟩ :=
    Token.tree?_eq_of_code hscan (by rw [trimText, String.toList_ofList]; exact hown') hcode'
  rw [SourceExpr.tree?, SourceExpr.tree?, htree] at hsame
  dsimp only at hsame
  cases htrimmed : Expression.ofSource (trimText e) with
  | error fault => rw [htrimmed] at hsame; cases hsame
  | ok tree' => rw [htrimmed] at hsame; cases hsame; rfl

/-- The tree without lines, with `e` in place of the first `hole` in every expression. -/
def View.filled (hole e : String) : View where
  expr d := ⟨String.ofList (trim (Text.fill hole.toList e.toList d.source.toList))⟩
  line _ := 0

namespace Statement

/-- An expression that is the name of a system variable and occurs nowhere else marks a place. -/
theorem exists_socket {name before after : String} {nodes : List Statement} (hname : IsName name)
    (hbefore : ¬ ("$" ++ name).toList <:+: before.toList)
    (hafter : ¬ ("$" ++ name).toList <:+: after.toList)
    (hnodes : ofSource (before ++ " " ++ ("$" ++ name) ++ " " ++ after) = .ok nodes)
    (hplace : ⟨"$" ++ name⟩ ∈ expressionsOf nodes) :
    ∃ (s : Socket) (x : Token), s.IsMark x ∧ s.before = before.toList ++ [' '] ∧
      s.word = ("$" ++ name).toList ∧ s.after = after.toList := by
  obtain ⟨tokens, htokens, hcuts⟩ := cut_of_ofSource hnodes
  obtain ⟨range, hrange, -, hsource⟩ := hcuts _ hplace
  obtain ⟨own, hown, hcode⟩ := Token.exists_scan_of_sourceOf? htokens hrange hsource
  obtain ⟨stop, hmark⟩ := Token.scan_systemName hname
  obtain rfl := Except.ok.inj (hmark.symm.trans hown)
  have hmem : Lexeme.systemIdent ("$" ++ name) ∈ Token.code range := by
    rw [← hcode]
    exact List.mem_singleton_self _
  obtain ⟨t, ht, hl⟩ := List.mem_map.mp (List.mem_filter.mp hmem).1
  obtain ⟨A, B, rfl⟩ := List.append_of_mem (List.mem_filter.mp (hrange.subset ht)).1
  have hscan := (Token.ofSource_eq_ok.mp htokens).2
  have hchars : (before ++ " " ++ ("$" ++ name) ++ " " ++ after).toList =
      before.toList ++ ' ' :: (("$" ++ name).toList ++ ' ' :: after.toList) := by simp
  rw [hchars] at hscan
  obtain ⟨s, hs, hw, ha, hx⟩ := Socket.exists_of_scan hbefore hafter hscan hl
  exact ⟨s, _, ⟨by rw [hw]; exact hx, _, rfl⟩, hs, hw, ha⟩

/-- A script stays one if something else stands at the place of a name. -/
theorem ofSource_filled {s : Socket} {x : Token} {e source source' : String} {own : List Token}
    {nodes : List Statement} (hx : s.IsMark x) (he : FreeText e.toList own)
    (hsource : source.toList = s.text s.word) (hsource' : source'.toList = s.text e.toList)
    (hnodes : ofSource source = .ok nodes)
    (hcalm : ∀ t ∈ nodes, t.Every fun k => ∀ v, k = .case_ v → s.Calm own v) :
    ∃ nodes', ofSource source' = .ok nodes' ∧
      List.Forall₂ Reread ((View.filled (String.ofList s.word) e).statements nodes)
        (View.withoutLines.statements nodes') := by
  obtain ⟨tokens, c, hcheck, hscan, hread⟩ := ofSource_eq_ok_iff.mp hnodes
  rw [hsource] at hcheck hscan hread
  -- the tokens of both texts are those of the cells
  obtain rfl := Except.ok.inj (hscan.symm.trans (s.scan_text hx.scan hx.plain))
  have hscan' := s.scan_text he.scan he.plain
  have hones := Socket.uncommented_ones hx e.toList own
  have hmanys := Socket.uncommented_manys (s := s) he x
  have hbalanced : Token.Balanced (Cell.ones (s.cells x e.toList own)) := by
    rw [← hones]
    exact Token.balanced_of_check hcheck hscan
  let f := Socket.filling hx he hbalanced
  have hcheck' : Balance.check (s.text e.toList) = .ok () := by
    refine (Balance.check_eq_ok_iff (Token.scans_of_scan hscan')).mpr ?_
    refine (Token.balanced_iff (Token.code_filter _)).mp ?_
    show Token.Balanced (Token.uncommented _)
    rw [hmanys]
    exact (f.fit.nest []).trans hbalanced
  have hc : f.Abreast (.ofTokens (s.text s.word) (Cell.ones f.cells))
      (.ofTokens (s.text e.toList) (Cell.manys f.cells)) :=
    ⟨rfl, rfl, f.cells, List.suffix_refl _, rfl, rfl⟩
  rw [hones] at hread
  obtain ⟨nodes', c', hread', hfills, -, -⟩ :=
    Filling.follow_readList (Nat.succ_le_succ (Filling.length_le hc)) hc nodes c hread hcalm
  have hview : f.view = View.filled (String.ofList s.word) e := by
    rw [View.filled, String.toList_ofList]
    rfl
  rw [← hview]
  rw [← hsource'] at hscan' hcheck'
  refine ⟨nodes', ofSource_eq_ok_iff.mpr ⟨_, c', hcheck', hscan', ?_⟩, hfills⟩
  rw [hsource', hmanys]
  exact hread'

/-- Where the name of a system variable is an expression of a script, every other expression may
stand: the statements are the same but for that place, and there is a text that has the tree of the
expression. Comments and, outside of brackets, line ends are left out of it, and so are colons
outside of brackets if the place is in the value of a case. -/
theorem ofSource_interchange {name before after e : String} {nodes : List Statement}
    {own : List Token} {tree : Expression} (hname : IsName name)
    (hbefore : ¬ ("$" ++ name).toList <:+: before.toList)
    (hafter : ¬ ("$" ++ name).toList <:+: after.toList)
    (hnodes : ofSource (before ++ " " ++ ("$" ++ name) ++ " " ++ after) = .ok nodes)
    (hplace : ⟨"$" ++ name⟩ ∈ expressionsOf nodes) (hown : Token.ofSource e = .ok own)
    (htree : Expression.ofSource e = .ok tree)
    (hcomment : ∀ t ∈ own, t.lexeme.isComment = false)
    (hline : ∀ l ∈ Lexeme.outside 0 (own.map Token.lexeme), l.isLineEnd = false)
    (hcase : ∀ s ∈ nodes, s.Every fun k => ∀ v, k = .case_ v →
      ("$" ++ name).toList <:+: v.source.toList →
      .punct .colon ∉ Lexeme.outside 0 (own.map Token.lexeme)) :
    ∃ nodes', ofSource (before ++ " " ++ e ++ " " ++ after) = .ok nodes' ∧
      List.Forall₂ Reread ((View.filled ("$" ++ name) e).statements nodes)
        (View.withoutLines.statements nodes') ∧
      (View.filled ("$" ++ name) e).expr ⟨"$" ++ name⟩ = ⟨trimText e⟩ ∧
      Expression.ofSource (trimText e) = .ok tree := by
  obtain ⟨s, x, hx, hs, hw, ha⟩ := exists_socket hname hbefore hafter hnodes hplace
  have he := FreeText.of_expression hown htree hcomment hline
  have htext (d : String) : (before ++ " " ++ d ++ " " ++ after).toList = s.text d.toList := by
    rw [Socket.text, hs, ha]
    simp
  obtain ⟨nodes', hnodes', hfills⟩ := ofSource_filled hx he (by rw [htext, hw]) (htext e) hnodes
    fun t ht => (hcase t ht).mono fun k hk v hv hword => hk v hv (hw ▸ hword)
  rw [hw, String.ofList_toList] at hfills
  refine ⟨nodes', hnodes', hfills, ?_, Expression.ofSource_trimText hown htree⟩
  show (⟨String.ofList (trim (Text.fill _ e.toList _))⟩ : SourceExpr) = _
  rw [fill_self (hw ▸ s.ne_nil)]
  rfl

theorem ofSource_interchange_choice :
    let before := "x = f(1,"
    let after := ")"
    let e := "a ? b : c"
    let nodes := [ofLine (.assign "x" (.invoke ⟨"f", [⟨"1"⟩, ⟨"$w"⟩]⟩ ⟨"f(1, $w )"⟩)) 1]
    let tree := Expression.choice (.variable_ "a") (.variable_ "b") (.variable_ "c")
    ofSource (before ++ " " ++ ("$" ++ "w") ++ " " ++ after) = .ok nodes ∧
      Expression.ofSource e = .ok tree ∧
      ∃ nodes', ofSource (before ++ " " ++ e ++ " " ++ after) = .ok nodes' ∧
        List.Forall₂ Reread ((View.filled ("$" ++ "w") e).statements nodes)
          (View.withoutLines.statements nodes') ∧
        (View.filled ("$" ++ "w") e).expr ⟨"$" ++ "w"⟩ = ⟨trimText e⟩ ∧
        Expression.ofSource (trimText e) = .ok tree := by
  intro before after e nodes tree
  have hname : IsName "w" := ⟨by decide, 'w', [], rfl, by decide, List.forall_mem_nil _⟩
  have htext : before ++ " " ++ ("$" ++ "w") ++ " " ++ after = "x = f(1, $w )" := by decide
  have htokens : Token.ofSource "x = f(1, $w )" = .ok [⟨.ident "x", 1, 0, 1⟩,
      ⟨.punct .assign, 1, 2, 3⟩, ⟨.ident "f", 1, 4, 5⟩, ⟨.punct .openParen, 1, 5, 6⟩,
      ⟨.int 1, 1, 6, 7⟩, ⟨.punct .comma, 1, 7, 8⟩, ⟨.systemIdent "$w", 1, 9, 11⟩,
      ⟨.punct .closeParen, 1, 12, 13⟩] := by cbv
  have hnodes : ofSource (before ++ " " ++ ("$" ++ "w") ++ " " ++ after) = .ok nodes := by
    rw [htext, ofSource, htokens]
    rfl
  have hchars : Token.ofChars e.toList = .ok [⟨.ident "a", 1, 0, 1⟩, ⟨.punct .question, 1, 2, 3⟩,
      ⟨.ident "b", 1, 4, 5⟩, ⟨.punct .colon, 1, 6, 7⟩, ⟨.ident "c", 1, 8, 9⟩] := by cbv
  have hown : Token.ofSource e = .ok _ := congrArg (Except.mapError _) hchars
  have htree : Expression.ofSource e = .ok tree := by
    rw [Expression.ofSource, hchars]
    rfl
  refine ⟨hnodes, htree, ofSource_interchange hname ?_ ?_ hnodes ?_ hown htree ?_ ?_ ?_⟩
  · decide
  · decide
  · decide
  · decide
  · decide
  · refine List.forall_mem_singleton.mpr (.intro ?_ (List.forall_mem_nil _))
    rintro v ⟨⟩

/-- The value of a case ends before a colon outside of brackets: a choice must be in parentheses
there. -/
theorem case_value_is_no_choice :
    let source (e : String) := "switch (x) \x7b\ncase " ++ e ++ " :\necho 1\n\x7d"
    ofSource (source "$w") = .ok [ofBlock (.switch ⟨"x"⟩) 1
      [ofBlock (.case_ ⟨"$w"⟩) 2 [ofLine (.echo ⟨"1"⟩) 3]]] ∧
    Expression.ofSource "a ? b : c" =
      .ok (.choice (.variable_ "a") (.variable_ "b") (.variable_ "c")) ∧
    (ofSource (source "a ? b : c")).isOk = false := by
  intro source
  have hchars : Token.ofChars "a ? b : c".toList = .ok [⟨.ident "a", 1, 0, 1⟩,
      ⟨.punct .question, 1, 2, 3⟩, ⟨.ident "b", 1, 4, 5⟩, ⟨.punct .colon, 1, 6, 7⟩,
      ⟨.ident "c", 1, 8, 9⟩] := by cbv
  have htext : source "$w" = "switch (x) \x7b\ncase $w :\necho 1\n\x7d" := by decide
  have htext' : source "a ? b : c" = "switch (x) \x7b\ncase a ? b : c :\necho 1\n\x7d" := by decide
  have htokens : Token.ofSource "switch (x) \x7b\ncase $w :\necho 1\n\x7d" = .ok [
      ⟨.keyword .switch, 1, 0, 6⟩, ⟨.punct .openParen, 1, 7, 8⟩, ⟨.ident "x", 1, 8, 9⟩,
      ⟨.punct .closeParen, 1, 9, 10⟩, ⟨.punct .openBrace, 1, 11, 12⟩, ⟨.lineEnd false, 1, 12, 13⟩,
      ⟨.keyword .case_, 2, 13, 17⟩, ⟨.systemIdent "$w", 2, 18, 20⟩, ⟨.punct .colon, 2, 21, 22⟩,
      ⟨.lineEnd false, 2, 22, 23⟩, ⟨.keyword .echo, 3, 23, 27⟩, ⟨.int 1, 3, 28, 29⟩,
      ⟨.lineEnd false, 3, 29, 30⟩, ⟨.punct .closeBrace, 4, 30, 31⟩] := by cbv
  have htokens' : Token.ofSource "switch (x) \x7b\ncase a ? b : c :\necho 1\n\x7d" = .ok [
      ⟨.keyword .switch, 1, 0, 6⟩, ⟨.punct .openParen, 1, 7, 8⟩, ⟨.ident "x", 1, 8, 9⟩,
      ⟨.punct .closeParen, 1, 9, 10⟩, ⟨.punct .openBrace, 1, 11, 12⟩, ⟨.lineEnd false, 1, 12, 13⟩,
      ⟨.keyword .case_, 2, 13, 17⟩, ⟨.ident "a", 2, 18, 19⟩, ⟨.punct .question, 2, 20, 21⟩,
      ⟨.ident "b", 2, 22, 23⟩, ⟨.punct .colon, 2, 24, 25⟩, ⟨.ident "c", 2, 26, 27⟩,
      ⟨.punct .colon, 2, 28, 29⟩, ⟨.lineEnd false, 2, 29, 30⟩, ⟨.keyword .echo, 3, 30, 34⟩,
      ⟨.int 1, 3, 35, 36⟩, ⟨.lineEnd false, 3, 36, 37⟩, ⟨.punct .closeBrace, 4, 37, 38⟩] := by cbv
  refine ⟨?_, ?_, ?_⟩
  · rw [htext, ofSource, htokens]
    rfl
  · rw [Expression.ofSource, hchars]
    rfl
  · rw [htext', ofSource, htokens']
    rfl

end Statement

end PipelineScript
