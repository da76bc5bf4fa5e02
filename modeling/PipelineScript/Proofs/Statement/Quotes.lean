import PipelineScript.Proofs.Statement.Comments
import PipelineScript.Proofs.Statement.Following
import PipelineScript.Proofs.Token.Joins

/-! # Texts inside another text

The tokens of a text that stands inside another one are mirrored there (`Twin.mirror_of_moved`). The
text of an expression that does not run over its line has the tokens it was cut from, moved to its
own start (`quotes_of_sourceOf?`). -/

namespace PipelineScript

open Text

theorem Token.uncommented_map_shift (lines bytes : Nat) (ts : List Token) :
    uncommented (ts.map (shift lines bytes)) = (uncommented ts).map (shift lines bytes) := by
  unfold uncommented
  rw [List.filter_map]
  rfl

namespace Twin

variable {w : Twin}

/-- The second token is the first one, that many bytes further on. -/
def Moved (bytes : Nat) (p : Token × Token) : Prop :=
  p.2.lexeme = p.1.lexeme ∧ p.2.start = p.1.start + bytes ∧ p.2.stop = p.1.stop + bytes

/-- The code of a text that stands inside another one is mirrored there. -/
theorem mirror_of_moved {before after : List Char} {ts : List Token} {ps : List (Token × Token)}
    (hscan : Token.scan 1 0 w.text = .ok ts) (htext : w.text' = before ++ w.text ++ after)
    (hps : ps.map Prod.fst = Token.uncommented ts)
    (hmoved : ∀ p ∈ ps, Moved (utf8Length before) p)
    (hline : ∀ p ∈ ps, w.view'.line p.2.line = w.view.line p.1.line)
    (hview : w.view'.expr = w.view.expr) : w.Mirror ps where
  lexeme p hp := by rw [(hmoved p hp).1]; exact .refl _
  line := hline
  slice qs hqs := by
    rcases List.eq_nil_or_concat qs with rfl | ⟨init, last, rfl⟩
    · rfl
    rw [List.concat_eq_append] at hqs ⊢
    obtain ⟨first, hfirst⟩ : ∃ q, (init ++ [last]).head? = some q := by
      cases init with
      | nil => exact ⟨last, rfl⟩
      | cons q init => exact ⟨q, rfl⟩
    have hrow : (init ++ [last]).map Prod.fst <:+: Token.uncommented ts := by
      rw [← hps]
      exact hqs.map _
    have hhead : ((init ++ [last]).map Prod.fst).head? = some first.1 := by
      rw [List.head?_map, hfirst]; rfl
    have hlast : ((init ++ [last]).map Prod.fst).getLast? = some last.1 := by simp
    have hhead' : ((init ++ [last]).map Prod.snd).head? = some first.2 := by
      rw [List.head?_map, hfirst]; rfl
    have hlast' : ((init ++ [last]).map Prod.snd).getLast? = some last.2 := by simp
    obtain ⟨pre, middle, post, rfl, -, hmfirst, hmlast⟩ :=
      Token.exists_of_infix_filter hrow hhead hlast
    obtain ⟨as, bs, ds, hall, hstart, hstop, -⟩ :=
      (Token.scans_of_scan hscan).middle hmfirst hmlast
    have hm₁ := hmoved first (hqs.subset (List.mem_of_head? hfirst))
    have hm₂ := hmoved last (hqs.subset (by simp))
    have hslice : slice first.1.start last.1.stop w.text = bs := by
      rw [hall, hstop, hstart, Nat.zero_add]
      exact slice_middle as bs ds
    have hslice' : slice first.2.start last.2.stop w.text' = bs := by
      have hplace := slice_middle (before ++ as) bs (ds ++ after)
      rw [utf8Length_append] at hplace
      rw [hm₁.2.1, hm₂.2.2, hstop, hstart, htext, hall, Nat.zero_add]
      rw [show utf8Length as + utf8Length before = utf8Length before + utf8Length as from
        Nat.add_comm _ _, Nat.add_right_comm, Nat.add_comm (utf8Length as)]
      simpa only [List.append_assoc] using hplace
    unfold Cursor.sourceOf?
    rw [hhead, hlast, hhead', hlast']
    dsimp only
    rw [hslice, hslice', hview]

end Twin

namespace Text

variable {cs : List Char}

/-- There is nothing to trim. -/
def Trimmed (cs : List Char) : Prop :=
  (∀ c ∈ cs.head?, isBlank c = false) ∧ ∀ z ∈ cs.getLast?, isBlank z = false

theorem dropWhile_eq_self {p : Char → Bool} (h : ∀ c ∈ cs.head?, p c = false) :
    cs.dropWhile p = cs := by
  cases cs with
  | nil => rfl
  | cons c cs => exact List.dropWhile_cons_of_neg (by simpa using h c rfl)

theorem head?_dropWhile {p : Char → Bool} : ∀ c ∈ (cs.dropWhile p).head?, p c = false := by
  intro c hc
  have h := List.head?_dropWhile_not p cs
  rw [Option.mem_def.mp hc] at h
  simpa using h

/-- Blanks around a trimmed text are trimmed off. -/
theorem trim_between {before after : List Char} (hb : before.all isBlank = true)
    (ha : after.all isBlank = true) (h : Trimmed cs) : trim (before ++ cs ++ after) = cs := by
  have hstart : trimStart (before ++ cs ++ after) = trimStart (cs ++ after) := by
    rw [trimStart, List.append_assoc, List.dropWhile_append_of_pos (List.all_eq_true.mp hb)]
    rfl
  have hend : trimEnd (cs ++ after) = cs := by
    rw [trimEnd, List.reverse_append, List.dropWhile_append_of_pos
      (fun c hc => List.all_eq_true.mp ha c (List.mem_reverse.mp hc)), dropWhile_eq_self,
      List.reverse_reverse]
    rw [List.head?_reverse]
    exact h.2
  rw [trim, hstart]
  cases cs with
  | nil =>
    have hnil : (after ++ []).dropWhile isBlank = [] :=
      List.dropWhile_append_of_pos (List.all_eq_true.mp ha)
    rw [List.append_nil] at hnil
    rw [List.nil_append, trimStart, hnil]
    rfl
  | cons c cs =>
    have hfirst : trimStart (c :: cs ++ after) = c :: cs ++ after := dropWhile_eq_self h.1
    rw [hfirst]
    exact hend

theorem trim_eq_self (h : Trimmed cs) : trim cs = cs := by
  have hall : trim ([] ++ cs ++ []) = cs := trim_between rfl rfl h
  rwa [List.nil_append, List.append_nil] at hall

theorem trimmed_trim (cs : List Char) : Trimmed (trim cs) := by
  have hstart : ∀ c ∈ (trimStart cs).head?, isBlank c = false := head?_dropWhile
  unfold trim
  generalize trimStart cs = ds at hstart ⊢
  have hlast : ∀ z ∈ (trimEnd ds).getLast?, isBlank z = false := by
    rw [trimEnd, List.getLast?_reverse]
    exact head?_dropWhile
  refine ⟨fun c hc => hstart c ?_, hlast⟩
  have hprefix : trimEnd ds <+: ds := by
    have hsuffix := List.dropWhile_suffix isBlank (l := ds.reverse)
    have h := List.reverse_prefix.mpr hsuffix
    rwa [List.reverse_reverse] at h
  obtain ⟨rest, hrest⟩ := hprefix
  rw [← hrest]
  rw [Option.mem_def] at hc ⊢
  rw [List.head?_append, hc]
  rfl

end Text

namespace Token

/-- Scanned anew, a text has the same tokens, moved to its own start. -/
theorem Scans.moved {offset bytes : Nat} {cs : List Char} {ts : List Token}
    (h : Scans (offset + bytes) cs ts) (line : Nat) :
    ∃ ps : List (Token × Token), Token.scan line offset cs = .ok (ps.map Prod.fst) ∧
      ps.map Prod.snd = ts ∧ ∀ p ∈ ps, Twin.Moved bytes p := by
  generalize hk : offset + bytes = k at h
  induction h generalizing offset line with
  | done => exact ⟨[], by rw [Token.scan]; rfl, rfl, List.forall_mem_nil _⟩
  | @space k c cs ts hs _ ih =>
    subst hk
    obtain ⟨ps, hscan, hts, hps⟩ := ih line (Nat.add_right_comm offset c.utf8Size bytes)
    exact ⟨ps, by rw [Token.scan, if_pos hs]; exact hscan, hts, hps⟩
  | @token k line₀ c body rest l ts hs hr _ ih =>
    subst hk
    obtain ⟨ps, hscan, hts, hps⟩ :=
      ih (line + newlines (c :: body)) (Nat.add_right_comm offset (utf8Length (c :: body)) bytes)
    refine ⟨(⟨l, line, offset, offset + utf8Length (c :: body)⟩,
      ⟨l, line₀, offset + bytes, offset + bytes + utf8Length (c :: body)⟩) :: ps,
      scan_cons hs hr hscan, by rw [List.map_cons, hts],
      List.forall_mem_cons.mpr ⟨⟨rfl, rfl, ?_⟩, hps⟩⟩
    exact Nat.add_right_comm offset bytes _

theorem Scans.le_start {offset : Nat} {cs : List Char} {ts : List Token} (h : Scans offset cs ts) :
    ∀ t ∈ ts.head?, offset ≤ t.start := by
  induction h with
  | done => intro t ht; cases ht
  | space _ _ ih => exact fun t ht => Nat.le_trans (Nat.le_add_right _ _) (ih t ht)
  | token =>
    intro t ht
    cases ht
    exact Nat.le_refl _

/-- A text that begins with a token begins with no blank, unless a statement ends there. -/
theorem Scans.isBlank_head? {cs : List Char} {ts : List Token} {t : Token}
    (h : Scans t.start cs (t :: ts)) (ht : t.isLineEnd = false) :
    ∀ c ∈ cs.head?, isBlank c = false := by
  generalize hall : t :: ts = all at h
  generalize hstart : t.start = offset at h
  cases h with
  | done => intro c hc; cases hc
  | @space _ c cs _ _ hrest =>
    have hle := hrest.le_start t (by rw [← hall]; rfl)
    have hpos := Char.utf8Size_pos c
    omega
  | @token _ _ c body rest l _ hs hr _ =>
    cases hall
    intro d hd
    obtain rfl : c = d := Option.some.inj hd
    cases hb : isBlank c with
    | false => rfl
    | true =>
      obtain rfl : c = '\n' := by simpa [isSpace, hb] using hs
      have hfeed : Lexeme.read '\n' (body ++ rest) = .ok ⟨.lineEnd false, 0⟩ := rfl
      have hl : Lexeme.lineEnd false = l :=
        congrArg Lexeme.Taken.lexeme (Except.ok.inj (hfeed.symm.trans hr))
      subst hl
      cases ht

/-- A text that ends with a token ends with no blank, unless a statement ends there or the token is
a comment. -/
theorem Scans.isBlank_getLast? {offset : Nat} {cs : List Char} {ts : List Token} {t : Token}
    (h : Scans offset cs ts) (hlast : ts.getLast? = some t)
    (hstop : t.stop = offset + utf8Length cs) (hend : t.isLineEnd = false)
    (hcomment : t.lexeme.isComment = false) : ∀ z ∈ cs.getLast?, isBlank z = false := by
  induction h with
  | done => cases hlast
  | @space offset c cs ts _ hrest ih =>
    have hne : cs ≠ [] := by
      rintro rfl
      rw [hrest.eq_nil] at hlast
      cases hlast
    rw [List.getLast?_cons_of_ne_nil hne]
    exact ih hlast (by rw [hstop, utf8Length, Nat.add_assoc])
  | @token offset line c body rest l ts hs hr hrest ih =>
    rw [← List.cons_append, utf8Length_append, ← Nat.add_assoc] at hstop
    rw [← List.cons_append]
    by_cases hts : ts = []
    · -- nothing stands behind the piece of the last token
      subst hts
      obtain rfl : _ = t := Option.some.inj
        ((List.getLast?_singleton : [⟨l, line, offset, _⟩].getLast? = some _).symm.trans hlast)
      have hrest : rest = [] := by
        cases rest with
        | nil => rfl
        | cons d rest =>
          have hpos := Char.utf8Size_pos d
          have hlen : utf8Length (d :: rest) = d.utf8Size + utf8Length rest := rfl
          simp only [hlen] at hstop
          omega
      subst hrest
      obtain ⟨body', after, hbody, hm, hpiece⟩ := Lexeme.piece_of_read hr
      obtain ⟨rfl, -⟩ := List.append_inj hbody hm
      rw [List.append_nil]
      intro z hz
      cases hb : isBlank z with
      | false => rfl
      | true =>
        cases body with
        | nil =>
          obtain rfl : c = z := Option.some.inj hz
          obtain rfl : c = '\n' := by simpa [isSpace, hb] using hs
          have hfeed : Lexeme.read '\n' ([] ++ []) = .ok ⟨.lineEnd false, 0⟩ := rfl
          have hl : Lexeme.lineEnd false = l :=
            congrArg Lexeme.Taken.lexeme (Except.ok.inj (hfeed.symm.trans hr))
          subst hl
          cases hend
        | cons d body =>
          rw [List.getLast?_cons_cons] at hz
          cases hcomment.symm.trans (hpiece.lineComment_of_isBlank hz hb).1
    · have hne : rest ≠ [] := by
        rintro rfl
        exact hts hrest.eq_nil
      have hlastchar : (c :: body ++ rest).getLast? = rest.getLast? := by
        rw [List.getLast?_append]
        cases hr : rest.getLast? with
        | none => exact absurd (List.getLast?_eq_none_iff.mp hr) hne
        | some z => rfl
      rw [hlastchar]
      exact ih (by rwa [List.getLast?_cons_of_ne_nil hts] at hlast) hstop

end Token

/-- A cursor before the code of the text of an expression. -/
def SourceExpr.cursor (e : SourceExpr) (own : List Token) : Cursor :=
  .ofTokens e.source.toList (Token.uncommented own)

/-- An expression stands in a text, and `used` are the tokens of its own text there, without
comments. -/
structure Quotes (text : List Char) (e : SourceExpr) (own used : List Token) : Prop where
  tokens : Token.ofSource e.source = .ok own
  place : ∃ (before after : List Char) (ps : List (Token × Token)),
    text = before ++ e.source.toList ++ after ∧ ps.map Prod.fst = Token.uncommented own ∧
      ps.map Prod.snd = used ∧ ∀ p ∈ ps, Twin.Moved (utf8Length before) p

namespace Quotes

variable {text : List Char} {e : SourceExpr} {own used : List Token}

theorem mirror (h : Quotes text e own used) (tail : List Token)
    (ended : ∀ t ∈ tail.head?, t.isLineEnd = true ∨ t.isPunct .closeBrace = true) :
    ∃ ps, ps.map Prod.fst = Token.uncommented own ∧ ps.map Prod.snd = used ∧
      (Twin.mk .withoutLines .withoutLines e.source.toList text tail ended).Mirror ps := by
  obtain ⟨before, after, ps, htext, hown, hused, hps⟩ := h.place
  exact ⟨ps, hown, hused, Twin.mirror_of_moved (Token.ofSource_eq_ok.mp h.tokens).2 htext hown hps
    (fun _ _ => rfl) rfl⟩

theorem lexemes (h : Quotes text e own used) :
    used.map Token.lexeme = (Token.uncommented own).map Token.lexeme := by
  obtain ⟨before, after, ps, -, hown, hused, hps⟩ := h.place
  rw [← hown, ← hused, List.map_map, List.map_map]
  exact List.map_congr_left fun p hp => (hps p hp).1

theorem length_eq (h : Quotes text e own used) :
    used.length = (Token.uncommented own).length := by
  have hlen := congrArg List.length h.lexemes
  rwa [List.length_map, List.length_map] at hlen

theorem balanced_own (h : Quotes text e own used) : Token.Balanced (Token.uncommented own) :=
  have htokens := Token.ofSource_eq_ok.mp h.tokens
  Token.balanced_of_check htokens.1 htokens.2

theorem balanced (h : Quotes text e own used) : Token.Balanced used := by
  unfold Token.Balanced
  rw [h.lexemes]
  exact h.balanced_own

/-- The slice of the tokens is the same in both places. -/
theorem sourceOf? (h : Quotes text e own used) :
    Cursor.sourceOf? text used = Cursor.sourceOf? e.source.toList (Token.uncommented own) := by
  obtain ⟨ps, hown, hused, hm⟩ := h.mirror [] (fun t ht => by cases ht)
  have hslice := hm.slice ps (List.infix_refl ps)
  rw [hown, hused] at hslice
  simpa [View.withoutLines] using hslice

/-- An expression is as long in both places. -/
theorem expressionLength (h : Quotes text e own used) {stop : Token → Bool}
    (hstop : ∀ t t' : Token, t.lexeme.Alike t'.lexeme → stop t' = stop t) :
    Token.expressionLength stop 0 used =
      Token.expressionLength stop 0 (Token.uncommented own) := by
  obtain ⟨ps, hown, hused, hm⟩ := h.mirror [] (fun t ht => by cases ht)
  have hnest : Lexeme.nest ([] ++ []) ((ps.map Prod.fst).map Token.lexeme) = some [] := by
    rw [hown]
    exact h.balanced_own
  have hlen := Twin.expressionLength_mirror hstop [] hm Token.rooted_nil hnest
  rwa [hown, hused, List.append_nil] at hlen

theorem splitRange?_eq_none_iff (h : Quotes text e own used) :
    Token.splitRange? 0 used = none ↔ Token.splitRange? 0 (Token.uncommented own) = none := by
  obtain ⟨ps, hown, hused, hm⟩ := h.mirror [] (fun t ht => by cases ht)
  rw [← hown, ← hused]
  obtain ⟨h, h'⟩ | ⟨b, b', i, a, a', h, h', -⟩ := Twin.splitRange?_mirror hm 0
  · rw [h, h']
  · rw [h, h']
    simp

/-- Where a statement ends behind the tokens, a cursor before them faces one before the text of
the expression. -/
theorem facing (h : Quotes text e own used) {tail : List Token}
    (ended : ∀ t ∈ tail.head?, t.isLineEnd = true ∨ t.isPunct .closeBrace = true) {c : Cursor}
    (hsource : c.source = text) (hahead : c.ahead = used ++ tail) :
    (Twin.mk .withoutLines .withoutLines e.source.toList text tail ended).Facing
      (e.cursor own) c := by
  obtain ⟨ps, hown, hused, hm⟩ := h.mirror tail ended
  exact ⟨rfl, hsource, ⟨ps, hown.symm, by rw [hahead, hused], hm⟩, [], h.balanced_own⟩

end Quotes

/-- The text of balanced tokens of which the first and the last are no line ends has these tokens,
when it is scanned on its own. -/
theorem quotes_of_sourceOf? {text : List Char} {ts used : List Token} {e : SourceExpr}
    (hscan : Token.scan 1 0 text = .ok ts) (hrow : used <:+: Token.uncommented ts)
    (hbalanced : Token.Balanced used) (he : Cursor.sourceOf? text used = some e)
    (hfirst : ∀ t ∈ used.head?, t.isLineEnd = false)
    (hlast : ∀ t ∈ used.getLast?, t.isLineEnd = false) :
    ∃ own, Quotes text e own used ∧ ∀ t ∈ own.getLast?, t.lexeme.isComment = false := by
  unfold Cursor.sourceOf? at he
  split at he
  · rename_i first last hhead hend
    cases he
    have hplain : last.lexeme.isComment = false := by
      have hmem := hrow.subset (List.mem_of_getLast? hend)
      simpa using (List.mem_filter.mp hmem).2
    obtain ⟨pre, middle, post, rfl, hfilter, hmhead, hmend⟩ :=
      Token.exists_of_infix_filter hrow hhead hend
    obtain ⟨as, bs, ds, htext, hstart, hstop, hmiddle⟩ :=
      (Token.scans_of_scan hscan).middle hmhead hmend
    have hslice : slice first.start last.stop text = bs := by
      rw [htext, hstop, hstart, Nat.zero_add]
      exact slice_middle as bs ds
    obtain ⟨rest, rfl⟩ := List.head?_eq_some_iff.mp hmhead
    have htrimmed : Trimmed bs :=
      ⟨hmiddle.isBlank_head? (hfirst first hhead),
        hmiddle.isBlank_getLast? hmend hstop (hlast last hend) hplain⟩
    have hsource : (String.ofList (trim (slice first.start last.stop text))).toList = bs := by
      rw [String.toList_ofList, hslice, trim_eq_self htrimmed]
    rw [hstart] at hmiddle
    obtain ⟨ps, hown, hps, hmoved⟩ := hmiddle.moved 1
    have hlexemes : (ps.map Prod.fst).map Token.lexeme = (first :: rest).map Token.lexeme := by
      rw [← hps, List.map_map, List.map_map]
      exact (List.map_congr_left fun p hp => (hmoved p hp).1).symm
    have hcode : Token.code (ps.map Prod.fst) = Token.code used := by
      rw [← hfilter, Token.code_filter]
      unfold Token.code
      rw [hlexemes]
    refine ⟨ps.map Prod.fst, ⟨?_, as, ds, ps.filter fun p => !p.1.lexeme.isComment, ?_, ?_, ?_, ?_⟩,
      ?_⟩
    · refine Token.ofSource_eq_ok.mpr ⟨?_, by rw [hsource, hown]⟩
      rw [hsource]
      exact (Balance.check_eq_ok_iff (Token.scans_of_scan hown)).mpr
        ((Token.balanced_iff hcode).mpr hbalanced)
    · rw [hsource, htext]
    · rw [Token.uncommented, List.filter_map]
      rfl
    · rw [← hfilter, ← hps, List.filter_map]
      refine congrArg _ (List.filter_congr fun p hp => ?_)
      rw [Function.comp_apply, (hmoved p hp).1]
    · exact fun p hp => hmoved p (List.mem_filter.mp hp).1
    · intro t ht
      rw [List.getLast?_map] at ht
      obtain ⟨p, hp, rfl⟩ := Option.map_eq_some_iff.mp ht
      rw [← hps, List.getLast?_map, hp] at hmend
      obtain rfl := Option.some.inj hmend
      rw [← (hmoved p (List.mem_of_getLast? hp)).1]
      exact hplain
  · cases he

end PipelineScript
