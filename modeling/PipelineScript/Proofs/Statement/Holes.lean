import PipelineScript.Proofs.Statement.Quotes
import PipelineScript.Proofs.Token.Words

/-! # Texts with a hole

A word that stands at one place of a text only marks a hole there, which any other text may fill
(`Text.fill`). If the word is a token on its own, then the tokens before and behind it stay what
they are, whatever fills the hole (`Socket`). -/

namespace PipelineScript

open Text Literal

namespace Text

variable {word filling cs before after as ds : List Char} {z : Char}

/-- The text with `filling` in place of the first `word` in it. -/
def fill (word filling : List Char) : List Char → List Char
  | [] => []
  | c :: cs =>
    if word.isPrefixOf (c :: cs) then filling ++ (c :: cs).drop word.length
    else c :: fill word filling cs

theorem fill_eq_self (h : ¬ word <:+: cs) (filling : List Char) : fill word filling cs = cs := by
  induction cs with
  | nil => rfl
  | cons c cs ih =>
    rw [fill, if_neg fun hprefix => h (List.isPrefixOf_iff_prefix.mp hprefix).isInfix,
      ih fun hcs => h (hcs.trans (List.infix_cons (List.infix_refl cs)))]

theorem fill_self (hne : word ≠ []) (filling : List Char) : fill word filling word = filling := by
  cases word with
  | nil => exact absurd rfl hne
  | cons c rest =>
    rw [fill, if_pos (List.isPrefixOf_iff_prefix.mpr (List.prefix_refl _)), List.drop_length,
      List.append_nil]

theorem exists_fill (hne : word ≠ []) (h : word <:+: cs) (filling : List Char) :
    ∃ as ds, cs = as ++ word ++ ds ∧ fill word filling cs = as ++ filling ++ ds := by
  induction cs with
  | nil => exact absurd (List.infix_nil.mp h) hne
  | cons c cs ih =>
    rw [fill]
    by_cases hprefix : word <+: c :: cs
    · obtain ⟨ds, hds⟩ := hprefix
      refine ⟨[], ds, hds.symm, ?_⟩
      rw [if_pos (List.isPrefixOf_iff_prefix.mpr ⟨ds, hds⟩), ← hds, List.drop_left]
      rfl
    · obtain ⟨as, ds, hcs, hfill⟩ := ih ((List.infix_cons_iff.mp h).resolve_left hprefix)
      rw [if_neg fun hp => hprefix (List.isPrefixOf_iff_prefix.mp hp), hfill, hcs]
      exact ⟨c :: as, ds, rfl, rfl⟩

theorem mem_of_append_eq (h : word ++ ds = as ++ z :: after) (hlen : as.length < word.length) :
    z ∈ word := by
  have hget := congrArg (·[as.length]?) h
  simp only [List.getElem?_append_left hlen, List.getElem?_append_right (Nat.le_refl _),
    Nat.sub_self, List.getElem?_cons_zero] at hget
  exact List.mem_of_getElem? hget

theorem append_ne_cons (hz : z ∉ word) (hne : word ≠ []) : word ++ ds ≠ z :: after := by
  cases word with
  | nil => exact absurd rfl hne
  | cons c word =>
    intro h
    obtain rfl : c = z := (List.cons.inj h).1
    exact hz List.mem_cons_self

/-- Between two characters that it does not have, a word occurs but once, unless it occurs before
the first or behind the second of them, too. -/
theorem eq_of_occurrence (hz : z ∉ word) (hne : word ≠ []) (hbefore : ¬ word <:+: before)
    (hafter : ¬ word <:+: after)
    (h : before ++ z :: (word ++ z :: after) = as ++ (word ++ ds)) : as = before ++ [z] := by
  have hsplit : before ++ [z] ++ (word ++ z :: after) = as ++ (word ++ ds) := by
    rw [← h, List.append_assoc, List.singleton_append]
  rcases List.append_eq_append_iff.mp hsplit with ⟨k, rfl, hk⟩ | ⟨k, hk, hrest⟩
  · -- the occurrence begins `k` behind the first character
    rcases List.append_eq_append_iff.mp hk with ⟨m, rfl, hm⟩ | ⟨m, hm, hrest⟩
    · cases m with
      | nil => exact (append_ne_cons hz hne hm.symm).elim
      | cons y m =>
        obtain ⟨-, rfl⟩ := List.cons.inj hm
        exact absurd ⟨m, ds, List.append_assoc m word ds⟩ hafter
    · cases k with
      | nil => rw [List.append_nil]
      | cons y k =>
        refine absurd (mem_of_append_eq hrest ?_) hz
        rw [hm, List.length_append, List.length_cons]
        omega
  · -- the occurrence begins `k` before the character behind
    rcases List.eq_nil_or_concat k with rfl | ⟨k, y, rfl⟩
    · rw [hk, List.append_nil]
    · rw [List.concat_eq_append, ← List.append_assoc] at hk
      obtain ⟨rfl, hy⟩ := List.append_inj' hk rfl
      cases hy
      rw [List.concat_eq_append, List.append_assoc, List.singleton_append] at hrest
      by_cases hlen : k.length < word.length
      · exact absurd (mem_of_append_eq hrest hlen) hz
      · have hword : word <+: k :=
          List.prefix_of_prefix_length_le ⟨ds, hrest⟩ (List.prefix_append k _) (by omega)
        exact absurd (hword.isInfix.trans ⟨as, [], List.append_nil _⟩) hbefore

/-! ## Trimming -/

theorem exists_trimStart (cs : List Char) :
    ∃ s, (∀ c ∈ s, isBlank c = true) ∧ cs = s ++ trimStart cs :=
  ⟨cs.takeWhile isBlank, fun _ => of_mem_takeWhile, List.takeWhile_append_dropWhile.symm⟩

theorem exists_trimEnd (cs : List Char) :
    ∃ s, (∀ c ∈ s, isBlank c = true) ∧ cs = trimEnd cs ++ s := by
  obtain ⟨s, hs, hcs⟩ := exists_trimStart cs.reverse
  refine ⟨s.reverse, fun c hc => hs c (List.mem_reverse.mp hc), ?_⟩
  have hcs' := congrArg List.reverse hcs
  rwa [List.reverse_reverse, List.reverse_append] at hcs'

/-- Blanks around a text are trimmed off. -/
theorem trim_within {s s' : List Char} (hs : ∀ c ∈ s, isBlank c = true)
    (hs' : ∀ c ∈ s', isBlank c = true) (cs : List Char) : trim (s ++ cs ++ s') = trim cs := by
  obtain ⟨u, hu, hcs⟩ := exists_trimStart cs
  obtain ⟨u', hu', htrim⟩ := exists_trimEnd (trimStart cs)
  have hall : s ++ cs ++ s' = (s ++ u) ++ trim cs ++ (u' ++ s') := by
    calc s ++ cs ++ s' = s ++ (u ++ (trim cs ++ u')) ++ s' := by rw [trim, ← htrim, ← hcs]
      _ = _ := by simp only [List.append_assoc]
  rw [hall]
  refine trim_between ?_ ?_ (trimmed_trim cs)
  · simpa [or_imp, forall_and] using ⟨hs, hu⟩
  · simpa [or_imp, forall_and] using ⟨hu', hs'⟩

/-- A word without blanks keeps apart what is trimmed off. -/
theorem trim_around (hne : word ≠ []) (hsolid : ∀ c ∈ word, isBlank c = false)
    (as ds : List Char) : trim (as ++ word ++ ds) = trimStart as ++ word ++ trimEnd ds := by
  have hstart : trimStart (as ++ word ++ ds) = trimStart as ++ word ++ ds := by
    obtain ⟨c, rest, rfl⟩ := List.exists_cons_of_ne_nil hne
    rw [List.append_assoc, List.append_assoc, List.cons_append]
    exact dropWhile_join (hsolid c List.mem_cons_self) as (rest ++ ds)
  have hend (as : List Char) : trimEnd (as ++ word ++ ds) = as ++ word ++ trimEnd ds := by
    obtain ⟨c, rest, hrev⟩ := List.exists_cons_of_ne_nil (mt List.reverse_eq_nil_iff.mp hne)
    have hc : isBlank c = false :=
      hsolid c (List.mem_reverse.mp (hrev ▸ List.mem_cons_self))
    rw [trimEnd, List.reverse_append, List.reverse_append, hrev, List.cons_append,
      dropWhile_join hc, ← List.cons_append, ← hrev]
    simp [trimEnd]
  rw [trim, hstart, hend]

end Text

/-! ## The tokens before a place -/

/-- A lexeme that ends before a space does not depend on what is behind the space. The space is not
the end of a line comment, which would run through the line. -/
theorem Lexeme.read_before_space {d c : Char} {body as rest xs : List Char} {t : Taken}
    (hd : isSpace d = false) (h : read d (body ++ (as ++ c :: rest)) = .ok t)
    (hm : t.more = body.length) (hxs : d :: (body ++ as) = xs ++ [' ']) (hc : c ≠ '\n') :
    (∃ ys, as = ys ++ [' ']) ∧ ∀ bs, read d (body ++ (as ++ bs)) = .ok t := by
  rcases List.eq_nil_or_concat as with rfl | ⟨as, y, rfl⟩
  · exfalso
    obtain ⟨body', after, hbody, hm', hpiece⟩ := piece_of_read h
    obtain ⟨rfl, rfl⟩ := List.append_inj hbody (hm.symm.trans hm')
    rw [List.append_nil] at hxs
    rcases List.eq_nil_or_concat body with rfl | ⟨body, y, rfl⟩
    · cases (List.append_inj' (show [] ++ [d] = xs ++ [' '] from hxs) rfl).2
      cases hd
    · rw [List.concat_eq_append] at hxs hpiece
      cases (List.append_inj' (show d :: body ++ [y] = xs ++ [' '] from hxs) rfl).2
      exact hc ((hpiece.lineComment_of_isBlank List.getLast?_concat rfl).2.2.1 c rfl)
  · rw [List.concat_eq_append, ← List.append_assoc, ← List.cons_append] at hxs
    cases (List.append_inj' hxs rfl).2
    rw [List.concat_eq_append] at h ⊢
    refine ⟨⟨as, rfl⟩, fun bs => ?_⟩
    rw [List.append_assoc, ← List.append_assoc] at h ⊢
    exact read_onward rfl h (by rw [hm, List.length_append]; omega) bs

namespace Token

variable {line offset : Nat} {cs : List Char} {A B : List Token} {X : Token}

/-- Where a token stands in a text. The tokens before it stay if something else follows, provided
that a space is before it. -/
theorem scan_at (h : scan line offset cs = .ok (A ++ X :: B)) :
    ∃ as c body rest, cs = as ++ c :: (body ++ rest) ∧ isSpace c = false ∧
      Lexeme.read c (body ++ rest) = .ok ⟨X.lexeme, body.length⟩ ∧
      X.start = offset + utf8Length as ∧ X.stop = X.start + utf8Length (c :: body) ∧
      scan (line + newlines (as ++ c :: body)) X.stop rest = .ok B ∧ (as = [] → A = []) ∧
      ∀ xs, as = xs ++ [' '] → c ≠ '\n' → ∀ bs us,
        scan (line + newlines as) X.start bs = .ok us →
        scan line offset (as ++ bs) = .ok (A ++ us) := by
  generalize hall : A ++ X :: B = all at h
  fun_induction scan line offset cs generalizing A all with
  | case1 => cases h; simp at hall
  | case2 line offset d cs hs ih =>
    have hd : d ≠ '\n' := by
      rintro rfl
      cases hs
    obtain ⟨as, c, body, rest, rfl, hc, hread, hstart, hstop, hB, hnil, honward⟩ := ih _ hall h
    refine ⟨d :: as, c, body, rest, rfl, hc, hread, ?_, hstop, ?_,
      fun h => absurd h (List.cons_ne_nil d as), ?_⟩
    · rw [hstart, utf8Length, Nat.add_assoc]
    · simpa [newlines, hd] using hB
    · intro xs hxs hc bs us hus
      have hlines : newlines (d :: as) = newlines as := by simp [newlines, hd]
      rw [hlines] at hus
      rw [List.cons_append, scan, if_pos hs]
      cases xs with
      | nil =>
        obtain ⟨-, rfl⟩ := List.cons.inj hxs
        rw [hnil rfl, List.nil_append, List.nil_append]
        simpa [hstart, newlines, utf8Length] using hus
      | cons x xs => exact honward xs (List.cons.inj hxs).2 hc bs us hus
  | case3 => cases h
  | case4 => cases h
  | case5 line offset d cs hs t hr body stop tokens hrec =>
    rename_i ih
    cases h
    obtain ⟨body', after, rfl, hm, hpiece⟩ := Lexeme.piece_of_read hr
    have hbody : body = body' := by simp only [body, hm, List.take_left]
    have hstop' : stop = offset + utf8Length (d :: body') := by simp only [stop, hbody]
    rw [hbody, hstop', hm, List.drop_left] at ih hrec
    cases A with
    | nil =>
      obtain ⟨rfl, rfl⟩ := List.cons.inj hall
      refine ⟨[], d, body', after, rfl, Bool.eq_false_iff.mpr hs, by rw [hr, ← hm], rfl, ?_, ?_,
        fun _ => rfl, fun xs hxs => by simp at hxs⟩
      · exact hstop'
      · rw [List.nil_append]
        exact hstop' ▸ hrec
    | cons b A =>
      rw [List.cons_append] at hall
      obtain ⟨rfl, htail⟩ := List.cons.inj hall
      obtain ⟨as, c, cbody, rest, rfl, hc, hread, hstart, hstop, hB, hnil, honward⟩ :=
        ih _ htail hrec
      refine ⟨d :: (body' ++ as), c, cbody, rest, by simp, hc, hread, ?_, hstop, ?_,
        fun h => absurd h (List.cons_ne_nil d (body' ++ as)), ?_⟩
      · rw [hstart, ← List.cons_append, utf8Length_append, Nat.add_assoc]
      · rw [← List.cons_append, List.append_assoc, newlines_append, ← Nat.add_assoc]
        exact hB
      · intro xs hxs hc bs us hus
        rw [hstop', List.cons_append, List.append_assoc, List.cons_append]
        rw [← List.cons_append, newlines_append, ← Nat.add_assoc] at hus
        have hd := Bool.eq_false_iff.mpr hs
        obtain ⟨⟨ys, rfl⟩, hpiece'⟩ := Lexeme.read_before_space hd hr hm hxs hc
        refine scan_cons hd ?_ (honward ys rfl hc bs us hus)
        rw [hpiece' bs, ← hm]

theorem Scans.isBlank_of_nil (h : Scans offset cs []) : ∀ c ∈ cs, isBlank c = true := by
  generalize hts : ([] : List Token) = ts at h
  induction h with
  | done => exact List.forall_mem_nil _
  | space hs _ ih => exact List.forall_mem_cons.mpr ⟨(Bool.and_eq_true_iff.mp hs).2, ih hts⟩
  | token => cases hts

/-- Between blanks a text begins and ends with its tokens. -/
theorem Scans.ends {ts : List Token} {first last : Token} (h : Scans offset cs ts)
    (hfirst : ts.head? = some first) (hlast : ts.getLast? = some last) :
    ∃ s m s', cs = s ++ m ++ s' ∧ (∀ c ∈ s, isBlank c = true) ∧ (∀ c ∈ s', isBlank c = true) ∧
      first.start = offset + utf8Length s ∧ last.stop = offset + utf8Length (s ++ m) := by
  induction h generalizing first with
  | done => cases hfirst
  | @space offset c cs ts hs _ ih =>
    obtain ⟨s, m, s', rfl, hblank, hblank', hstart, hstop⟩ := ih hfirst hlast
    refine ⟨c :: s, m, s', rfl, List.forall_mem_cons.mpr ⟨(Bool.and_eq_true_iff.mp hs).2, hblank⟩,
      hblank', ?_, ?_⟩
    · rw [hstart, utf8Length, Nat.add_assoc]
    · rw [hstop, List.cons_append, utf8Length, Nat.add_assoc]
  | @token offset line c body rest l ts hs hr hrest ih =>
    cases hfirst
    cases hts : ts.head? with
    | none =>
      obtain rfl := List.head?_eq_none_iff.mp hts
      cases hlast
      exact ⟨[], c :: body, rest, rfl, List.forall_mem_nil _, hrest.isBlank_of_nil, rfl, rfl⟩
    | some next =>
      obtain ⟨ts, rfl⟩ := List.head?_eq_some_iff.mp hts
      rw [List.getLast?_cons_cons] at hlast
      obtain ⟨s, m, s', rfl, -, hblank', -, hstop⟩ := ih hts hlast
      refine ⟨[], c :: body ++ (s ++ m), s', by simp, List.forall_mem_nil _, hblank', rfl, ?_⟩
      rw [hstop, List.nil_append, utf8Length_append (c :: body), Nat.add_assoc]

end Token

/-- A place in a text, marked by a word. Whatever stands there, the tokens before it are the same,
and so are those behind it but for where they stand. -/
structure Socket where
  before : List Char
  word : List Char
  /-- What follows the space behind the place. -/
  after : List Char
  ahead : List Token
  /-- The tokens behind the place, as if the text began there. -/
  behind : List Token
  ne_nil : word ≠ []
  solid : ∀ c ∈ word, isBlank c = false
  once : ∀ as ds, before ++ word ++ ' ' :: after = as ++ word ++ ds → as = before
  scan_ahead : ∀ bs us, Token.scan (1 + newlines before) (utf8Length before) bs = .ok us →
    Token.scan 1 0 (before ++ bs) = .ok (ahead ++ us)
  scan_behind : Token.scan 0 0 (' ' :: after) = .ok behind

namespace Socket

open Token

variable (s : Socket) {e : List Char} {own ts us : List Token} {t : Token}

/-- The text with something at the place. -/
def text (e : List Char) : List Char := s.before ++ e ++ ' ' :: s.after

/-- A token of what stands at the place. -/
def within (t : Token) : Token := t.shift (newlines s.before) (utf8Length s.before)

/-- A token behind the place with `e` there. -/
def beyond (e : List Char) (t : Token) : Token :=
  t.shift (1 + newlines (s.before ++ e)) (utf8Length (s.before ++ e))

theorem scan_text (h : scan 1 0 e = .ok own) (hplain : ∀ t ∈ own, t.lexeme.isComment = false) :
    scan 1 0 (s.text e) = .ok (s.ahead ++ (own.map s.within ++ s.behind.map (s.beyond e))) := by
  have hown := scan_shift h (newlines s.before) (utf8Length s.before)
  have hbehind := scan_shift s.scan_behind (1 + newlines (s.before ++ e))
    (utf8Length (s.before ++ e))
  rw [Nat.zero_add] at hown
  rw [Nat.zero_add, Nat.zero_add] at hbehind
  rw [text, List.append_assoc]
  refine s.scan_ahead _ _ (scan_append rfl hown (.inr ?_) ?_)
  · intro t ht
    obtain ⟨u, hu, rfl⟩ := List.mem_map.mp (List.mem_of_getLast? ht)
    exact hplain u hu
  · rw [Nat.add_assoc, ← newlines_append, ← utf8Length_append]
    exact hbehind

theorem scan_before : scan 1 0 s.before = .ok s.ahead := by
  have hscan := s.scan_ahead [] [] (by rw [scan])
  rwa [List.append_nil, List.append_nil] at hscan

/-- Where the tokens before the place start. -/
theorem start_of_ahead (h : t ∈ s.ahead) : ∃ l p, s.before = l ++ p ∧ t.start = utf8Length l := by
  obtain ⟨A, B, hahead⟩ := List.append_of_mem h
  have hscans := scans_of_scan s.scan_before
  rw [hahead] at hscans
  obtain ⟨l, p, hbefore, hstart, -⟩ := hscans.final
  exact ⟨l, p, hbefore, by rw [hstart, Nat.zero_add]⟩

/-- Where the tokens behind the place stop. -/
theorem stop_of_behind (h : t ∈ s.behind) :
    ∃ q r, ' ' :: s.after = q ++ r ∧ t.stop = utf8Length q := by
  obtain ⟨A, B, hbehind⟩ := List.append_of_mem h
  have hscans := scans_of_scan s.scan_behind
  rw [hbehind, List.append_cons] at hscans
  obtain ⟨q, r, hafter, hstop, -⟩ := hscans.initial List.getLast?_concat
  exact ⟨q, r, hafter, by rw [hstop, Nat.zero_add]⟩

/-! ## Slices -/

section

variable {source l m r : List Char} {first last : Token}

/-- The slice of tokens with blanks before the first and behind the last of them. -/
theorem sourceOf?_within {u m' u' : List Char} (htext : source = l ++ m ++ r)
    (hm : m = u ++ m' ++ u') (hu : ∀ c ∈ u, isBlank c = true) (hu' : ∀ c ∈ u', isBlank c = true)
    (hfirst : ts.head? = some first) (hlast : ts.getLast? = some last)
    (hstart : first.start = utf8Length (l ++ u)) (hstop : last.stop = utf8Length (l ++ u ++ m')) :
    Cursor.sourceOf? source ts = some ⟨String.ofList (trim m)⟩ := by
  have hslice := slice_middle (l ++ u) m' (u' ++ r)
  rw [← utf8Length_append, ← hstart, ← hstop] at hslice
  have hsource : source = l ++ u ++ m' ++ (u' ++ r) := by simp [htext, hm]
  rw [Cursor.sourceOf?, hfirst, hlast, hsource]
  dsimp only
  rw [hslice, hm, trim_within hu hu']

theorem sourceOf?_stretch (htext : source = l ++ m ++ r) (hfirst : ts.head? = some first)
    (hlast : ts.getLast? = some last) (hstart : first.start = utf8Length l)
    (hstop : last.stop = utf8Length (l ++ m)) :
    Cursor.sourceOf? source ts = some ⟨String.ofList (trim m)⟩ :=
  sourceOf?_within htext (List.append_nil m).symm (List.forall_mem_nil _) (List.forall_mem_nil _)
    hfirst hlast (by rw [hstart, List.append_nil]) (by rw [hstop, List.append_nil])

/-- The stretch of some tokens in a row, comments left out. -/
theorem exists_stretch {all : List Token} (h : Scans 0 source all) (hts : ts <:+: uncommented all)
    (hne : ts ≠ []) : ∃ l m r first last, source = l ++ m ++ r ∧ ts.head? = some first ∧
      ts.getLast? = some last ∧ first.start = utf8Length l ∧ last.stop = utf8Length (l ++ m) := by
  have hfirst := List.head?_eq_some_head hne
  have hlast := List.getLast?_eq_some_getLast hne
  obtain ⟨A, middle, B, rfl, -, hmiddle, hmiddle'⟩ := exists_of_infix_filter hts hfirst hlast
  obtain ⟨l, m, r, hsource, hstart, hstop, -⟩ := h.middle hmiddle hmiddle'
  rw [Nat.zero_add] at hstart
  exact ⟨l, m, r, _, _, hsource, hfirst, hlast, hstart, by rw [hstop, hstart, utf8Length_append]⟩

end

/-- A row of tokens before the place. -/
theorem exists_slice_ahead (h : ts <:+: uncommented s.ahead) (hne : ts ≠ []) :
    ∃ m, m <:+: s.before ∧ ∀ e, Cursor.sourceOf? (s.text e) ts = some ⟨String.ofList (trim m)⟩ := by
  obtain ⟨l, m, r, first, last, hbefore, hfirst, hlast, hstart, hstop⟩ :=
    exists_stretch (scans_of_scan s.scan_before) h hne
  refine ⟨m, ⟨l, r, hbefore.symm⟩, fun e => ?_⟩
  have htext : s.text e = l ++ m ++ (r ++ e ++ ' ' :: s.after) := by
    rw [text, hbefore]
    simp only [List.append_assoc]
  exact sourceOf?_stretch htext hfirst hlast hstart hstop

/-- A row of tokens behind the place. -/
theorem exists_slice_behind (h : ts <:+: uncommented s.behind) (hne : ts ≠ []) :
    ∃ m, m <:+: ' ' :: s.after ∧ ∀ e,
      Cursor.sourceOf? (s.text e) (ts.map (s.beyond e)) = some ⟨String.ofList (trim m)⟩ := by
  obtain ⟨l, m, r, first, last, hafter, hfirst, hlast, hstart, hstop⟩ :=
    exists_stretch (scans_of_scan s.scan_behind) h hne
  refine ⟨m, ⟨l, r, hafter.symm⟩, fun e => ?_⟩
  have hfirst' : (ts.map (s.beyond e)).head? = some (s.beyond e first) := by
    rw [List.head?_map, hfirst]
    rfl
  have hlast' : (ts.map (s.beyond e)).getLast? = some (s.beyond e last) := by
    rw [List.getLast?_map, hlast]
    rfl
  refine sourceOf?_stretch (l := s.before ++ e ++ l) (r := r) ?_ hfirst' hlast' ?_ ?_
  · rw [text, hafter]
    simp only [List.append_assoc]
  · rw [utf8Length_append _ l, ← hstart, Nat.add_comm]
    rfl
  · rw [List.append_assoc, utf8Length_append _ (l ++ m), ← hstop, Nat.add_comm]
    rfl

/-- A row of tokens across the place. -/
theorem exists_slice_across (hts : ts <:+ uncommented s.ahead) (hus : us <+: uncommented s.behind) :
    ∃ l p q r, s.before = l ++ p ∧ ' ' :: s.after = q ++ r ∧
      ∀ e own, scan 1 0 e = .ok own → own ≠ [] →
        Cursor.sourceOf? (s.text e) (ts ++ own.map s.within ++ us.map (s.beyond e)) =
          some ⟨String.ofList (trim (p ++ e ++ q))⟩ := by
  have hleft : ∃ l p, s.before = l ++ p ∧
      (ts = [] ∧ p = [] ∨ ∃ t, ts.head? = some t ∧ t.start = utf8Length l) := by
    cases ts with
    | nil => exact ⟨s.before, [], (List.append_nil _).symm, .inl ⟨rfl, rfl⟩⟩
    | cons t ts =>
      obtain ⟨l, p, hbefore, hstart⟩ :=
        s.start_of_ahead (List.mem_filter.mp (hts.subset List.mem_cons_self)).1
      exact ⟨l, p, hbefore, .inr ⟨t, rfl, hstart⟩⟩
  have hright : ∃ q r, ' ' :: s.after = q ++ r ∧
      (us = [] ∧ q = [] ∨ ∃ t, us.getLast? = some t ∧ t.stop = utf8Length q) := by
    rcases List.eq_nil_or_concat us with rfl | ⟨us, t, rfl⟩
    · exact ⟨[], ' ' :: s.after, rfl, .inl ⟨rfl, rfl⟩⟩
    · obtain ⟨q, r, hafter, hstop⟩ :=
        s.stop_of_behind (List.mem_filter.mp (hus.subset (by simp : t ∈ us.concat t))).1
      exact ⟨q, r, hafter, .inr ⟨t, by simp, hstop⟩⟩
  obtain ⟨l, p, hbefore, hleft⟩ := hleft
  obtain ⟨q, r, hafter, hright⟩ := hright
  refine ⟨l, p, q, r, hbefore, hafter, fun e own hown hne => ?_⟩
  have hfirst := List.head?_eq_some_head hne
  have hlast := List.getLast?_eq_some_getLast hne
  obtain ⟨a, m, a', he, ha, ha', hstart, hstop⟩ := (scans_of_scan hown).ends hfirst hlast
  -- the row begins in front of `u` and ends behind `u'`
  obtain ⟨first', u, w, hfirst', hu, hblank, hstart'⟩ : ∃ first' u w,
      (ts ++ own.map s.within ++ us.map (s.beyond e)).head? = some first' ∧ p ++ a = u ++ w ∧
        (∀ c ∈ u, isBlank c = true) ∧ first'.start = utf8Length (l ++ u) := by
    rcases hleft with ⟨rfl, rfl⟩ | ⟨t, ht, htstart⟩
    · refine ⟨s.within (own.head hne), a, [], ?_, (List.append_nil a).symm, ha, ?_⟩
      · rw [List.nil_append, List.head?_append, List.head?_map, hfirst]
        rfl
      · show (own.head hne).start + _ = _
        rw [hstart, hbefore, List.append_nil, utf8Length_append, Nat.zero_add, Nat.add_comm]
    · refine ⟨t, [], p ++ a, ?_, rfl, List.forall_mem_nil _, by rw [htstart, List.append_nil]⟩
      rw [List.append_assoc, List.head?_append, ht]
      rfl
  obtain ⟨last', w', u', hlast', hu', hblank', hstop'⟩ : ∃ last' w' u',
      (ts ++ own.map s.within ++ us.map (s.beyond e)).getLast? = some last' ∧ a' ++ q = w' ++ u' ∧
        (∀ c ∈ u', isBlank c = true) ∧ last'.stop = utf8Length (s.before ++ (a ++ m) ++ w') := by
    rcases hright with ⟨rfl, rfl⟩ | ⟨t, ht, htstop⟩
    · refine ⟨s.within (own.getLast hne), [], a', ?_, List.append_nil a', ha', ?_⟩
      · rw [List.map_nil, List.append_nil, List.getLast?_append, List.getLast?_map, hlast]
        rfl
      · show (own.getLast hne).stop + _ = _
        rw [hstop, List.append_nil, utf8Length_append s.before, Nat.zero_add, Nat.add_comm]
    · refine ⟨s.beyond e t, a' ++ q, [], ?_, (List.append_nil _).symm, List.forall_mem_nil _, ?_⟩
      · rw [List.getLast?_append, List.getLast?_map, ht]
        rfl
      · show t.stop + _ = _
        rw [htstop, List.append_assoc, ← List.append_assoc (a ++ m), ← he, ← List.append_assoc,
          utf8Length_append _ q, Nat.add_comm]
  have htext : s.text e = l ++ (p ++ e ++ q) ++ r := by
    rw [text, hbefore, hafter]
    simp only [List.append_assoc]
  have hstretch : p ++ e ++ q = u ++ (w ++ m ++ w') ++ u' := by
    calc p ++ e ++ q = p ++ a ++ m ++ (a' ++ q) := by rw [he]; simp only [List.append_assoc]
      _ = _ := by rw [hu, hu']; simp only [List.append_assoc]
  refine sourceOf?_within htext hstretch hblank hblank' hfirst' hlast' hstart' (hstop'.trans ?_)
  refine congrArg utf8Length ?_
  calc s.before ++ (a ++ m) ++ w' = l ++ (p ++ a) ++ m ++ w' := by
        rw [hbefore]; simp only [List.append_assoc]
    _ = _ := by rw [hu]; simp only [List.append_assoc]

end Socket

/-! ## Names of system variables as marks -/

/-- A dollar sign makes the name of a system variable of a name. -/
theorem Token.scan_systemName {name : String} (h : IsName name) :
    ∃ stop, Token.scan 1 0 ("$" ++ name).toList =
      .ok [⟨.systemIdent ("$" ++ name), 1, 0, stop⟩] := by
  obtain ⟨-, c, body, hname, hc, hbody⟩ := h
  have hchars : ("$" ++ name).toList = '$' :: (c :: body ++ []) := by
    rw [String.toList_append, hname, List.append_nil]
    rfl
  have hword : (c :: body).takeWhile isWordPart = c :: body := by
    rw [List.takeWhile_cons_of_pos (Lexeme.isWordPart_of_isWordStart hc)]
    have htake : (body ++ []).takeWhile isWordPart = body ++ [].takeWhile isWordPart :=
      List.takeWhile_append_of_pos hbody
    rw [List.append_nil, List.takeWhile_nil, List.append_nil] at htake
    rw [htake]
  have hread : Lexeme.read '$' (c :: body ++ []) =
      .ok ⟨.systemIdent ("$" ++ name), (c :: body).length⟩ := by
    have hdollar : Lexeme.isWordStart '$' = false := by decide
    have hname' : String.ofList ('$' :: c :: body) = "$" ++ name := by
      have hself := congrArg String.ofList hchars
      rw [String.ofList_toList, List.append_nil] at hself
      exact hself.symm
    rw [List.append_nil]
    simp [Lexeme.read, hdollar, hc, hword, hname']
  rw [hchars]
  exact ⟨_, Token.scan_cons (by decide) hread (by rw [Token.scan])⟩

/-- The name of a system variable is read from its own characters. -/
theorem Lexeme.toList_of_systemIdent {c : Char} {rest : List Char} {t : Taken} {name : String}
    (h : read c rest = .ok t) (hname : t.lexeme = .systemIdent name) :
    name.toList = c :: rest.take t.more ∧ ∀ d ∈ name.toList, isBlank d = false := by
  unfold read at h
  split at h
  · cases h; cases hname
  split at h
  · cases h; cases hname
  split at h
  · cases h; cases hname
  split at h
  · split at h <;> cases h
    cases hname
  split at h
  · cases h
    change word (String.ofList (c :: rest.takeWhile isWordPart)) = .systemIdent name at hname
    unfold word at hname
    split at hname <;> cases hname
  split at h
  · rename_i hc
    cases h
    cases hname
    obtain ⟨rfl, -⟩ := hc
    rw [String.toList_ofList]
    refine ⟨congrArg _ (List.prefix_iff_eq_take.mp (List.takeWhile_prefix _)), ?_⟩
    refine List.forall_mem_cons.mpr ⟨rfl, fun d hd => ?_⟩
    have hplain := isPlain_of_isWordPart (of_mem_takeWhile hd)
    simp only [isPlain, Bool.and_eq_true, Bool.not_eq_true'] at hplain
    simp [hplain]
  split at h
  · have hn := (readNumber_takes (ok_of_mapError h)).1
    rw [hname] at hn
    cases hn
  split at h
  · cases hr : readString 0 rest with
    | error e => rw [hr] at h; cases h
    | ok r => rw [hr] at h; cases h; cases hname
  · have hop := ok_of_mapError h
    unfold readOperator at hop
    split at hop <;> cases hop
    cases hname

/-- A name of a system variable that occurs between two spaces only is a mark. -/
theorem Socket.exists_of_scan {name : String} {before after : List Char} {A B : List Token}
    {X : Token} (hbefore : ¬ name.toList <:+: before) (hafter : ¬ name.toList <:+: after)
    (h : Token.scan 1 0 (before ++ ' ' :: (name.toList ++ ' ' :: after)) = .ok (A ++ X :: B))
    (hX : X.lexeme = .systemIdent name) :
    ∃ s : Socket, s.before = before ++ [' '] ∧ s.word = name.toList ∧ s.after = after ∧
      Token.scan 1 0 name.toList = .ok [⟨.systemIdent name, 1, 0, utf8Length name.toList⟩] := by
  obtain ⟨as, c, body, rest, htext, hc, hread, hstart, hstop, hB, -, honward⟩ := Token.scan_at h
  obtain ⟨hword, hsolid⟩ := Lexeme.toList_of_systemIdent hread hX
  rw [List.take_left] at hword
  have hne : name.toList ≠ [] := by rw [hword]; exact List.cons_ne_nil _ _
  have hz : ' ' ∉ name.toList := fun hmem => by cases hsolid _ hmem
  have hplace : before ++ ' ' :: (name.toList ++ ' ' :: after) = as ++ (name.toList ++ rest) := by
    rw [htext, hword, List.cons_append]
  obtain rfl := eq_of_occurrence hz hne hbefore hafter hplace
  obtain rfl : rest = ' ' :: after := by simpa using hplace.symm
  obtain ⟨behind, hbehind, -⟩ := (Token.scans_of_scan hB).scan 0 0
  have hfeed : c ≠ '\n' := by
    rintro rfl
    cases hsolid '\n' (by rw [hword]; exact List.mem_cons_self)
  refine ⟨⟨before ++ [' '], name.toList, after, A, behind, hne, hsolid, ?_, ?_, hbehind⟩, rfl, rfl,
    rfl, ?_⟩
  · intro as ds heq
    rw [List.append_assoc, List.append_assoc, List.append_assoc, List.singleton_append] at heq
    exact eq_of_occurrence hz hne hbefore hafter heq
  · intro bs us hus
    rw [Nat.zero_add] at hstart
    exact honward before rfl hfeed bs us (by rwa [hstart])
  · have hread' : Lexeme.read c (body ++ []) = .ok ⟨.systemIdent name, body.length⟩ := by
      rw [List.append_nil, ← hX]
      exact Lexeme.read_cut hread (Nat.le_refl _)
    have hscan : Token.scan 1 0 (c :: (body ++ [])) =
        .ok [⟨.systemIdent name, 1, 0, 0 + utf8Length (c :: body)⟩] :=
      Token.scan_cons hc hread' (by rw [Token.scan])
    rwa [List.append_nil, ← hword, Nat.zero_add] at hscan

end PipelineScript
