import PipelineScript.Proofs.Token.Pieces

/-! # Slices of a text

The stretch of a text from the first of some tokens through the last has these tokens, when it is
scanned on its own (`Scans.middle`). Blanks at its ends do not matter: without them it still has the
same code, which is all but line ends and comments (`Scans.trim`). -/

namespace PipelineScript

open Text

namespace Lexeme

/-- Line ends and comments are no code. -/
def isCode (l : Lexeme) : Bool := !l.isLineEnd && !l.isComment

theorem getLast?_of_blockComment {cs : List Char} (h : blockCommentLength? cs = some cs.length) :
    cs.getLast? = some '/' := by
  induction cs with
  | nil => cases h
  | cons c rest ih =>
    rw [blockCommentLength?_cons] at h
    split at h
    · rename_i hc
      obtain ⟨rest, rfl⟩ := List.head?_eq_some_iff.mp hc.2
      have hr : rest = [] := by simpa using h
      subst hr; rfl
    · obtain ⟨m, hm, hl⟩ := Option.map_eq_some_iff.mp h
      rw [List.length_cons, Nat.succ_inj] at hl
      subst hl
      rw [List.getLast?_cons, ih hm]; rfl

theorem getLast?_of_stringBody {body contents : List Char}
    (h : Literal.StringBody body contents) : body.getLast? = some '"' := by
  induction h with
  | close => rfl
  | fourPlaces _ _ ih => simp only [List.getLast?_cons, ih, Option.getD_some]
  | escape _ _ _ ih => simp only [List.getLast?_cons, ih, Option.getD_some]
  | char _ _ _ ih => simp only [List.getLast?_cons, ih, Option.getD_some]

/-- Behind its first character only a line comment has blanks at its end. -/
theorem Piece.lineComment_of_isBlank {c z : Char} {body rest : List Char} {l : Lexeme}
    (h : Piece c body l rest) (hl : body.getLast? = some z) (hz : isBlank z = true) :
    l.isComment = true ∧ c = '/' ∧ (∀ x ∈ rest.head?, x = '\n') ∧
      ∃ w, body = '/' :: w ∧ ∀ x ∈ w, x ≠ '\n' := by
  have hne {d : Char} (hd : isBlank d = false) : z ≠ d := by
    rintro rfl; rw [hz] at hd; cases hd
  cases h with
  | lineFeed => cases hl
  | semicolon => cases hl
  | opening => cases hl
  | closing => cases hl
  | slash => cases hl
  | lineComment hw hend => exact ⟨rfl, rfl, hend, _, rfl, hw⟩
  | blockComment hb =>
    rw [List.getLast?_cons, getLast?_of_blockComment hb] at hl
    cases hl
    exact absurd rfl (hne (by decide))
  | str hb =>
    rw [getLast?_of_stringBody hb] at hl
    cases hl
    exact absurd rfl (hne (by decide))
  | plain _ hp =>
    have hzp := hp z (List.mem_cons_of_mem _ (List.mem_of_getLast? hl))
    simp [isPlain, hz] at hzp

/-- A comment that ends with a blank is a comment without it, too. -/
theorem read_trim {c z : Char} {body : List Char} {l : Lexeme} (hz : isBlank z = true)
    (h : read c (body ++ [z]) = .ok ⟨l, (body ++ [z]).length⟩) :
    l.isComment = true ∧ ∃ text, read c body = .ok ⟨comment text, body.length⟩ := by
  obtain ⟨body', after, hb, hm, hp⟩ := piece_of_read h
  have ha : after = [] := by
    have hlen := congrArg List.length hb
    have hm' : (body ++ [z]).length = body'.length := hm
    rw [hm', List.length_append] at hlen
    exact List.eq_nil_of_length_eq_zero (by omega)
  subst ha
  rw [List.append_nil] at hb
  subst hb
  obtain ⟨hc, rfl, -, w, hw, hn⟩ := hp.lineComment_of_isBlank (by simp) hz
  refine ⟨hc, ?_⟩
  cases body with
  | nil =>
    cases hw
    cases hz
  | cons d body =>
    rw [List.cons_append, List.cons.injEq] at hw
    obtain ⟨rfl, rfl⟩ := hw
    have ht : ('/' :: body).takeWhile (· != '\n') = '/' :: body := by
      have hall : ∀ x ∈ '/' :: body, (x != '\n') = true := by
        intro x hx
        obtain rfl | hx := List.mem_cons.mp hx
        · decide
        · simpa using hn x (by simp [hx])
      have happend : ('/' :: body ++ []).takeWhile (· != '\n') = '/' :: body ++ [] :=
        List.takeWhile_append_of_pos hall
      rwa [List.append_nil] at happend
    exact ⟨String.ofList ('/' :: '/' :: body), by simp [read, ht]⟩

end Lexeme

namespace Token

/-- The tokens of a text that starts at a byte `offset`, whatever their lines. -/
inductive Scans : Nat → List Char → List Token → Prop
  | done {offset : Nat} : Scans offset [] []
  | space {offset : Nat} {c : Char} {cs : List Char} {ts : List Token} :
      isSpace c = true → Scans (offset + c.utf8Size) cs ts → Scans offset (c :: cs) ts
  | token {offset line : Nat} {c : Char} {body rest : List Char} {l : Lexeme} {ts : List Token} :
      isSpace c = false → Lexeme.read c (body ++ rest) = .ok ⟨l, body.length⟩ →
      Scans (offset + utf8Length (c :: body)) rest ts →
      Scans offset (c :: (body ++ rest))
        (⟨l, line, offset, offset + utf8Length (c :: body)⟩ :: ts)

theorem scans_of_scan {line offset : Nat} {cs : List Char} {ts : List Token}
    (h : scan line offset cs = .ok ts) : Scans offset cs ts := by
  induction hn : cs.length using Nat.strongRecOn generalizing line offset cs ts with
  | ind n ih =>
    subst hn
    cases cs with
    | nil => rw [scan] at h; cases h; exact .done
    | cons c rest =>
      rw [scan] at h
      split at h
      · rename_i hs
        exact .space hs (ih rest.length (Nat.lt_succ_self _) h rfl)
      · rename_i hs
        split at h
        · cases h
        · rename_i t ht
          obtain ⟨body, after, rfl, hm, -⟩ := Lexeme.piece_of_read ht
          simp only [hm, List.take_left, List.drop_left] at h
          split at h
          · cases h
          · rename_i tokens hrec
            cases h
            have hlt : after.length < (c :: (body ++ after)).length := by
              rw [List.length_cons, List.length_append]; omega
            refine .token (Bool.eq_false_iff.mpr hs) ?_ (ih after.length hlt hrec rfl)
            rw [ht, ← hm]

/-- Scanning depends on the offset and on the line for the places of tokens alone. -/
theorem Scans.scan {offset : Nat} {cs : List Char} {ts : List Token} (h : Scans offset cs ts) :
    ∀ line offset', ∃ ts', scan line offset' cs = .ok ts' ∧
      ts'.map Token.lexeme = ts.map Token.lexeme := by
  induction h with
  | done => exact fun _ _ => ⟨[], by rw [Token.scan], rfl⟩
  | space hs _ ih =>
    intro line offset'
    obtain ⟨ts', hscan, hl⟩ := ih line (offset' + _)
    exact ⟨ts', by rw [Token.scan, if_pos hs]; exact hscan, hl⟩
  | @token offset line₀ c body rest l ts hs hr _ ih =>
    intro line offset'
    obtain ⟨ts', hscan, hl⟩ := ih (line + newlines (c :: body)) (offset' + utf8Length (c :: body))
    refine ⟨⟨l, line, offset', offset' + utf8Length (c :: body)⟩ :: ts', ?_, ?_⟩
    · rw [Token.scan, if_neg (Bool.eq_false_iff.mp hs)]
      simp only [hr, List.take_left, List.drop_left, hscan]
    · rw [List.map_cons, List.map_cons, hl]

/-! ## Stretches of a text -/

/-- A text before the first of its last tokens may be left out. -/
theorem Scans.final {offset : Nat} {cs : List Char} {before ts : List Token} {t : Token}
    (h : Scans offset cs (before ++ t :: ts)) :
    ∃ as bs, cs = as ++ bs ∧ t.start = offset + utf8Length as ∧ Scans t.start bs (t :: ts) := by
  generalize hall : before ++ t :: ts = all at h
  induction h generalizing before with
  | done => simp at hall
  | @space offset c cs all hs _ ih =>
    obtain ⟨as, bs, rfl, ht, hbs⟩ := ih hall
    refine ⟨c :: as, bs, rfl, ?_, hbs⟩
    rw [ht, utf8Length]; omega
  | @token offset line c body rest l all hs hr hrest ih =>
    cases before with
    | nil =>
      rw [List.nil_append, List.cons.injEq] at hall
      obtain ⟨rfl, rfl⟩ := hall
      exact ⟨[], _, rfl, rfl, .token hs hr hrest⟩
    | cons b before =>
      rw [List.cons_append, List.cons.injEq] at hall
      obtain ⟨as, bs, rfl, ht, hbs⟩ := ih hall.2
      refine ⟨c :: (body ++ as), bs, by simp, ?_, hbs⟩
      rw [ht, ← List.cons_append, utf8Length_append]; omega

/-- A text behind the last of its first tokens may be left out. -/
theorem Scans.initial {offset : Nat} {cs : List Char} {ts after : List Token} {t : Token}
    (h : Scans offset cs (ts ++ after)) (hlast : ts.getLast? = some t) :
    ∃ bs ds, cs = bs ++ ds ∧ t.stop = offset + utf8Length bs ∧ Scans offset bs ts := by
  generalize hall : ts ++ after = all at h
  induction h generalizing ts with
  | done =>
    obtain ⟨rfl, -⟩ := List.append_eq_nil_iff.mp hall
    cases hlast
  | @space offset c cs all hs _ ih =>
    obtain ⟨bs, ds, rfl, ht, hbs⟩ := ih hlast hall
    refine ⟨c :: bs, ds, rfl, ?_, .space hs hbs⟩
    rw [ht, utf8Length]; omega
  | @token offset line c body rest l all hs hr hrest ih =>
    cases ts with
    | nil => cases hlast
    | cons t' ts =>
      rw [List.cons_append, List.cons.injEq] at hall
      obtain ⟨rfl, rfl⟩ := hall
      cases ts with
      | nil =>
        cases hlast
        refine ⟨c :: body, rest, rfl, rfl, ?_⟩
        have hshort : Lexeme.read c (body ++ []) = .ok ⟨l, body.length⟩ := by
          rw [List.append_nil]; exact Lexeme.read_cut hr (Nat.le_refl _)
        have hscan : Scans offset (c :: (body ++ []))
            [⟨l, line, offset, offset + utf8Length (c :: body)⟩] := .token hs hshort .done
        rwa [List.append_nil] at hscan
      | cons t'' ts =>
        obtain ⟨bs, ds, rfl, ht, hbs⟩ := ih (by simpa using hlast) rfl
        refine ⟨c :: (body ++ bs), ds, by simp, ?_, .token hs ?_ hbs⟩
        · rw [ht, ← List.cons_append, utf8Length_append]; omega
        · rw [← List.append_assoc] at hr
          exact Lexeme.read_cut hr (by simp)

/-- The stretch between the first and the last of some tokens in a row has these tokens. -/
theorem Scans.middle {offset : Nat} {cs : List Char} {before ts after : List Token}
    {first last : Token} (h : Scans offset cs (before ++ ts ++ after))
    (hfirst : ts.head? = some first) (hlast : ts.getLast? = some last) :
    ∃ as bs ds, cs = as ++ bs ++ ds ∧ first.start = offset + utf8Length as ∧
      last.stop = first.start + utf8Length bs ∧ Scans first.start bs ts := by
  obtain ⟨ts, rfl⟩ := List.head?_eq_some_iff.mp hfirst
  rw [List.append_assoc, List.cons_append] at h
  obtain ⟨as, rest, rfl, hs, hrest⟩ := h.final
  rw [← List.cons_append] at hrest
  obtain ⟨bs, ds, rfl, he, hbs⟩ := hrest.initial hlast
  exact ⟨as, bs, ds, (List.append_assoc as bs ds).symm, hs, he, hbs⟩

/-! ## Code -/

/-- The lexemes of some tokens without line ends and comments. -/
def code (ts : List Token) : List Lexeme := (ts.map Token.lexeme).filter Lexeme.isCode

theorem code_cons (t : Token) (ts : List Token) :
    code (t :: ts) = if t.lexeme.isCode then t.lexeme :: code ts else code ts := by
  simp [code, List.filter_cons]

theorem Scans.eq_nil {offset : Nat} {ts : List Token} (h : Scans offset [] ts) : ts = [] := by
  generalize hcs : ([] : List Char) = cs at h
  cases h with
  | done => rfl
  | space => cases hcs
  | token => cases hcs

/-- A blank at the start of a text is no code. -/
theorem Scans.tail_of_isBlank {offset : Nat} {c : Char} {cs : List Char} {ts : List Token}
    (h : Scans offset (c :: cs) ts) (hc : isBlank c = true) :
    ∃ offset' ts', Scans offset' cs ts' ∧ code ts' = code ts := by
  generalize hall : c :: cs = all at h
  cases h with
  | done => cases hall
  | space _ hrest => cases hall; exact ⟨_, _, hrest, rfl⟩
  | @token _ line _ body rest l ts hs hr hrest =>
    cases hall
    have hn : c = '\n' := by simpa [isSpace, hc] using hs
    subst hn
    have hl : (⟨.lineEnd false, 0⟩ : Lexeme.Taken) = ⟨l, body.length⟩ := by
      simpa [Lexeme.read] using hr
    have hb : body = [] := List.eq_nil_of_length_eq_zero (congrArg Lexeme.Taken.more hl).symm
    subst hb
    refine ⟨_, _, hrest, ?_⟩
    rw [code_cons, ← show Lexeme.lineEnd false = l from congrArg Lexeme.Taken.lexeme hl]
    rfl

theorem Scans.trimStart {offset : Nat} {cs : List Char} {ts : List Token}
    (h : Scans offset cs ts) :
    ∃ offset' ts', Scans offset' (Text.trimStart cs) ts' ∧ code ts' = code ts := by
  induction cs generalizing offset ts with
  | nil => exact ⟨offset, ts, h, rfl⟩
  | cons c cs ih =>
    unfold Text.trimStart
    by_cases hc : isBlank c = true
    · obtain ⟨offset', ts', hs, he⟩ := h.tail_of_isBlank hc
      obtain ⟨offset'', ts'', hs', he'⟩ := ih hs
      rw [List.dropWhile_cons_of_pos hc]
      exact ⟨offset'', ts'', hs', he'.trans he⟩
    · rw [List.dropWhile_cons_of_neg hc]
      exact ⟨offset, ts, h, rfl⟩

/-- A blank at the end of a text is no code. -/
theorem Scans.init_of_isBlank {offset : Nat} {cs : List Char} {z : Char} {ts : List Token}
    (h : Scans offset (cs ++ [z]) ts) (hz : isBlank z = true) :
    ∃ ts', Scans offset cs ts' ∧ code ts' = code ts := by
  generalize hall : cs ++ [z] = all at h
  induction h generalizing cs with
  | done => simp at hall
  | @space offset c rest ts hs hrest ih =>
    cases cs with
    | nil =>
      cases hall
      obtain rfl := hrest.eq_nil
      exact ⟨[], .done, rfl⟩
    | cons d cs =>
      cases hall
      obtain ⟨ts', hs', he⟩ := ih rfl
      exact ⟨ts', .space hs hs', he⟩
  | @token offset line c body rest l ts hs hr hrest ih =>
    rcases List.eq_nil_or_concat rest with rfl | ⟨rest, y, rfl⟩
    · -- the blank ends the last piece
      obtain rfl := hrest.eq_nil
      cases cs with
      | nil =>
        have hone : Scans offset (c :: (body ++ []))
            [⟨l, line, offset, offset + utf8Length (c :: body)⟩] := .token hs hr hrest
        rw [← hall] at hone
        obtain ⟨_, ts', hnil, he⟩ := hone.tail_of_isBlank hz
        obtain rfl := hnil.eq_nil
        exact ⟨[], .done, he⟩
      | cons d cs =>
        rw [List.append_nil] at hall hr
        rw [List.cons_append, List.cons.injEq] at hall
        obtain ⟨rfl, rfl⟩ := hall
        obtain ⟨hl, text, hr'⟩ := Lexeme.read_trim hz hr
        have hshort : Lexeme.read d (cs ++ []) = .ok ⟨.comment text, cs.length⟩ := by
          rw [List.append_nil]; exact hr'
        have hscan : Scans offset (d :: (cs ++ []))
            [⟨.comment text, line, offset, offset + utf8Length (d :: cs)⟩] := .token hs hshort .done
        rw [List.append_nil] at hscan
        refine ⟨_, hscan, ?_⟩
        have hcode : l.isCode = false := by simp [Lexeme.isCode, hl]
        have hcomment : (Lexeme.comment text).isCode = false := rfl
        simp [code_cons, hcode, hcomment]
    · -- the blank stands behind the piece
      rw [List.concat_eq_append] at hall hr ih
      rw [← List.append_assoc, ← List.cons_append] at hall
      obtain ⟨rfl, hy⟩ := List.append_inj' hall rfl
      cases hy
      obtain ⟨ts', hs', he⟩ := ih rfl
      rw [← List.append_assoc] at hr
      have hscan : Scans offset (c :: (body ++ rest))
          (⟨l, line, offset, offset + utf8Length (c :: body)⟩ :: ts') :=
        .token hs (Lexeme.read_cut hr (by simp)) hs'
      refine ⟨_, hscan, ?_⟩
      rw [code_cons, code_cons, he]

theorem Scans.trimEnd {offset : Nat} {cs : List Char} {ts : List Token} (h : Scans offset cs ts) :
    ∃ ts', Scans offset (Text.trimEnd cs) ts' ∧ code ts' = code ts := by
  unfold Text.trimEnd
  rw [← List.reverse_reverse cs] at h
  generalize cs.reverse = rs at h ⊢
  induction rs generalizing ts with
  | nil => exact ⟨ts, h, rfl⟩
  | cons z rs ih =>
    by_cases hz : isBlank z = true
    · rw [List.reverse_cons] at h
      obtain ⟨ts', hs, he⟩ := h.init_of_isBlank hz
      obtain ⟨ts'', hs', he'⟩ := ih hs
      rw [List.dropWhile_cons_of_pos hz]
      exact ⟨ts'', hs', he'.trans he⟩
    · rw [List.dropWhile_cons_of_neg hz]
      exact ⟨ts, h, rfl⟩

/-- Without the blanks at its ends a text has the same code. -/
theorem Scans.trim {offset : Nat} {cs : List Char} {ts : List Token} (h : Scans offset cs ts) :
    ∃ offset' ts', Scans offset' (Text.trim cs) ts' ∧ code ts' = code ts := by
  obtain ⟨offset', ts', hs, he⟩ := h.trimStart
  obtain ⟨ts'', hs', he'⟩ := hs.trimEnd
  exact ⟨offset', ts'', hs', he'.trans he⟩

end Token

end PipelineScript
