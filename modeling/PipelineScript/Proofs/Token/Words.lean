import PipelineScript.Proofs.Token.Joins

/-! # Words and marks

How words, dotted names and operators are scanned at the front of a text. A name that was scanned is
scanned again, wherever it is written (`Token.isName_of_scan`, `Token.scan_name`). -/

namespace PipelineScript

open Text Literal

/-- A word that is no keyword. -/
def IsName (s : String) : Prop :=
  Lexeme.word s = .ident s ∧ ∃ c body, s.toList = c :: body ∧ Lexeme.isWordStart c = true ∧
    ∀ d ∈ body, isWordPart d = true

/-- Names with dots between them. -/
def IsPath (s : String) : Prop :=
  ∃ first more, s = ".".intercalate (first :: more) ∧ IsName first ∧ ∀ part ∈ more, IsName part

/-- Does the mark end where it ends, whatever follows? -/
def Punct.isLone (p : Punct) : Bool :=
  [.openParen, .closeParen, .openBrace, .closeBrace, .comma, .colon].contains p

namespace Lexeme

/-- A name is read from a word. -/
theorem isName_of_read {c : Char} {rest : List Char} {t : Taken} {s : String}
    (h : read c rest = .ok t) (hs : t.lexeme = .ident s) : IsName s := by
  unfold read at h
  split at h
  · cases h; cases hs
  split at h
  · cases h; cases hs
  split at h
  · cases h; cases hs
  split at h
  · split at h <;> cases h
    cases hs
  split at h
  · rename_i hc
    cases h
    change word (String.ofList (c :: rest.takeWhile isWordPart)) = .ident s at hs
    have hname : String.ofList (c :: rest.takeWhile isWordPart) = s := by
      unfold word at hs
      split at hs <;> cases hs
      rfl
    subst hname
    exact ⟨hs, c, _, String.toList_ofList, hc, fun d hd => of_mem_takeWhile hd⟩
  split at h
  · cases h; cases hs
  split at h
  · have hn := (readNumber_takes (ok_of_mapError h)).1
    rw [hs] at hn
    cases hn
  split at h
  · cases hr : readString 0 rest with
    | error e => rw [hr] at h; cases h
    | ok r => rw [hr] at h; cases h; cases hs
  · have hop := ok_of_mapError h
    unfold readOperator at hop
    split at hop <;> cases hop
    cases hs

theorem read_word {c : Char} {body rest : List Char} (hc : isWordStart c = true)
    (hbody : ∀ d ∈ body, isWordPart d = true) (hrest : rest.head?.any isWordPart = false) :
    read c (body ++ rest) = .ok ⟨word (String.ofList (c :: body)), body.length⟩ := by
  have hne {d : Char} (hd : isWordStart d = false) : c ≠ d := by
    rintro rfl; rw [hc] at hd; cases hd
  have htake : (body ++ rest).takeWhile isWordPart = body := by
    rw [List.takeWhile_append_of_pos hbody]
    cases rest with
    | nil => simp
    | cons d rest =>
      rw [List.takeWhile_cons_of_neg (by simpa using hrest), List.append_nil]
  unfold read
  rw [if_neg (hne (by decide)), if_neg (hne (by decide)),
    if_neg (fun h => hne (by decide) h.1), if_neg (fun h => hne (by decide) h.1), if_pos hc, htake]

/-- A dot before a name is no range. -/
theorem read_dot {c : Char} (hc : isWordStart c = true) (rest : List Char) :
    read '.' (c :: rest) = .ok ⟨.punct .dot, 0⟩ := by
  have hdot : '.' ≠ c := by
    rintro rfl
    cases hc
  have hop : Punct.read? ('.' :: c :: rest) = some .dot := by
    simp [Punct.read?, Punct.all, Punct.chars, List.isPrefixOf_cons_cons, hdot]
  have hread : read '.' (c :: rest) =
      (readOperator '.' (c :: rest)).mapError fun cause => (0, cause) := rfl
  rw [hread, readOperator, hop]
  rfl

theorem word_text (k : Keyword) : word k.text = .keyword k := by
  rw [word, Keyword.ofText?_text]

end Lexeme

theorem IsName.dot_not_mem {s : String} (h : IsName s) : '.' ∉ s.toList := by
  obtain ⟨-, c, body, hchars, hc, hbody⟩ := h
  intro hdot
  rw [hchars] at hdot
  have hword : isWordPart '.' = true := by
    obtain hd | hd := List.mem_cons.mp hdot
    · exact hd ▸ Lexeme.isWordPart_of_isWordStart hc
    · exact hbody _ hd
  cases hword

namespace Token

theorem isName_of_scan {line offset : Nat} {cs : List Char} {ts : List Token}
    (h : scan line offset cs = .ok ts) :
    ∀ t ∈ ts, ∀ s, t.lexeme = .ident s → IsName s := by
  have hscans := scans_of_scan h
  clear h
  induction hscans with
  | done => intro t ht; cases ht
  | space _ _ ih => exact ih
  | token _ hr _ ih =>
    intro t ht s hs
    obtain rfl | ht := List.mem_cons.mp ht
    · exact Lexeme.isName_of_read hr hs
    · exact ih t ht s hs

variable {line offset : Nat} {rest : List Char} {us : List Token}

/-- What is behind a word, an operator or an expression does not carry it on. -/
def Ended (rest : List Char) : Prop := rest.head?.all isBoundary = true

theorem Ended.any_isWordPart (h : Ended rest) : rest.head?.any isWordPart = false := by
  cases rest with
  | nil => rfl
  | cons z rest => exact isWordPart_of_isBoundary h

/-- A text in front of what does not carry on its last token. -/
theorem scan_ended {cs : List Char} {ts : List Token} (h : scan line offset cs = .ok ts)
    (hlast : ∀ t ∈ ts.getLast?, t.lexeme.isComment = false) (hrest : Ended rest)
    (h' : scan (line + newlines cs) (offset + utf8Length cs) rest = .ok us) :
    scan line offset (cs ++ rest) = .ok (ts ++ us) := by
  cases rest with
  | nil =>
    rw [scan] at h'
    cases h'
    rwa [List.append_nil, List.append_nil]
  | cons z rest => exact scan_append hrest h (.inr hlast) h'

/-- A word in front of what does not carry it on. -/
theorem scan_word {word : List Char} {c : Char} {body : List Char} (hword : word = c :: body)
    (hc : Lexeme.isWordStart c = true) (hbody : ∀ d ∈ body, isWordPart d = true)
    (hrest : rest.head?.any isWordPart = false)
    (h : scan (line + newlines word) (offset + utf8Length word) rest = .ok us) :
    scan line offset (word ++ rest) =
      .ok (⟨.word (String.ofList word), line, offset, offset + utf8Length word⟩ :: us) := by
  subst hword
  have hs : isSpace c = false := by
    have hp := isPlain_of_isWordPart (Lexeme.isWordPart_of_isWordStart hc)
    simp only [isPlain, Bool.and_eq_true] at hp
    simpa [isSpace] using fun _ => hp.1.1.1.1
  exact scan_cons hs (Lexeme.read_word hc hbody hrest) h

theorem scan_name {s : String} (hs : IsName s) (hrest : rest.head?.any isWordPart = false)
    (h : scan (line + newlines s.toList) (offset + utf8Length s.toList) rest = .ok us) :
    scan line offset (s.toList ++ rest) =
      .ok (⟨.ident s, line, offset, offset + utf8Length s.toList⟩ :: us) := by
  obtain ⟨hword, c, body, hchars, hc, hbody⟩ := hs
  have hscan := scan_word hchars hc hbody hrest h
  rwa [String.ofList_toList, hword] at hscan

theorem scan_keyword (k : Keyword) (hrest : rest.head?.any isWordPart = false)
    (h : scan (line + newlines k.text.toList) (offset + utf8Length k.text.toList) rest = .ok us) :
    scan line offset (k.text.toList ++ rest) =
      .ok (⟨.keyword k, line, offset, offset + utf8Length k.text.toList⟩ :: us) := by
  obtain ⟨c, body, hchars, hc, hbody⟩ : ∃ c body, k.text.toList = c :: body ∧
      Lexeme.isWordStart c = true ∧ ∀ d ∈ body, isWordPart d = true := by
    cases k <;> exact ⟨_, _, rfl, by decide, List.all_eq_true.mp rfl⟩
  have hscan := scan_word hchars hc hbody hrest h
  rwa [String.ofList_toList, Lexeme.word_text] at hscan

theorem read_mark (p : Punct) : ∃ c body, p.chars = c :: body ∧ isSpace c = false ∧
    Lexeme.read c body = .ok ⟨.punct p, body.length⟩ := by
  cases p <;> exact ⟨_, _, rfl, rfl, rfl⟩

theorem read_lone {p : Punct} (hp : p.isLone = true) :
    ∃ c, p.chars = [c] ∧ isSpace c = false ∧
      ∀ rest, Lexeme.read c rest = .ok ⟨.punct p, 0⟩ := by
  cases p <;> first | (cases hp; done) | exact ⟨_, rfl, rfl, fun _ => rfl⟩

theorem scan_mark {p : Punct} (hp : p.isLone = true ∨ Ended rest)
    (h : scan (line + newlines p.chars) (offset + utf8Length p.chars) rest = .ok us) :
    scan line offset (p.chars ++ rest) =
      .ok (⟨.punct p, line, offset, offset + utf8Length p.chars⟩ :: us) := by
  rcases hp with hp | hrest
  · obtain ⟨c, hchars, hs, hread⟩ := read_lone hp
    rw [hchars] at h ⊢
    exact @scan_cons c [] rest _ hs (hread rest) _ _ _ h
  · obtain ⟨c, body, hchars, hs, hread⟩ := read_mark p
    rw [hchars] at h ⊢
    refine scan_cons hs ?_ h
    cases rest with
    | nil => rwa [List.append_nil]
    | cons z rest => exact Lexeme.read_join hrest hread fun hc => by cases hc

/-- The further parts of a dotted name. -/
def dotted (more : List String) : List Lexeme :=
  more.flatMap fun part => [.punct .dot, .ident part]

theorem toList_path (first : String) (more : List String) :
    (".".intercalate (first :: more)).toList =
      first.toList ++ more.flatMap fun part => '.' :: part.toList := by
  induction more generalizing first with
  | nil => simp [String.intercalate_singleton]
  | cons part more ih => simp [String.intercalate_cons_cons, ih]

/-- A name is no dotted name. -/
theorem IsName.parts_eq {s first : String} {more : List String} (h : IsName s)
    (hs : s = ".".intercalate (first :: more)) : more = [] := by
  cases more with
  | nil => rfl
  | cons part more =>
    refine absurd ?_ h.dot_not_mem
    rw [hs, toList_path]
    simp

theorem scan_dotted {more : List String} (hmore : ∀ part ∈ more, IsName part)
    (hrest : rest.head?.any isWordPart = false)
    (h : scan (line + newlines (more.flatMap fun part => '.' :: part.toList))
      (offset + utf8Length (more.flatMap fun part => '.' :: part.toList)) rest = .ok us) :
    ∃ ts, scan line offset ((more.flatMap fun part => '.' :: part.toList) ++ rest) =
      .ok (ts ++ us) ∧ ts.map Token.lexeme = dotted more := by
  induction more generalizing line offset with
  | nil => exact ⟨[], h, rfl⟩
  | cons part more ih =>
    obtain ⟨hpart, hmore⟩ := List.forall_mem_cons.mp hmore
    rw [List.flatMap_cons] at h ⊢
    generalize htail : (more.flatMap fun part => '.' :: part.toList) = tail at h ih ⊢
    have hnext : (tail ++ rest).head?.any isWordPart = false := by
      subst htail
      cases more with
      | nil => exact hrest
      | cons q more => rfl
    rw [newlines_append, utf8Length_append, ← Nat.add_assoc, ← Nat.add_assoc] at h
    obtain ⟨ts, hts, hlexemes⟩ := ih hmore h
    rw [show '.' :: part.toList = ['.'] ++ part.toList from rfl, newlines_append,
      utf8Length_append, ← Nat.add_assoc, ← Nat.add_assoc] at hts
    have hname := scan_name hpart hnext hts
    obtain ⟨-, c, body, hchars, hc, -⟩ := hpart
    have hdot : Lexeme.read '.' ([] ++ (part.toList ++ (tail ++ rest))) = .ok ⟨.punct .dot, 0⟩ := by
      rw [hchars]
      exact Lexeme.read_dot hc _
    have hall := scan_cons (show isSpace '.' = false by decide) hdot hname
    rw [List.append_assoc, List.cons_append]
    exact ⟨_ :: _ :: ts, hall, by rw [List.map_cons, List.map_cons, hlexemes]; rfl⟩

theorem scan_path {s : String} (hs : IsPath s) (hrest : rest.head?.any isWordPart = false)
    (h : scan (line + newlines s.toList) (offset + utf8Length s.toList) rest = .ok us) :
    ∃ ts first more, scan line offset (s.toList ++ rest) = .ok (ts ++ us) ∧
      s = ".".intercalate (first :: more) ∧ ts.map Token.lexeme = .ident first :: dotted more := by
  obtain ⟨first, more, hs, hfirst, hmore⟩ := hs
  have hchars : s.toList = first.toList ++ more.flatMap fun part => '.' :: part.toList := by
    rw [hs, toList_path]
  rw [hchars, newlines_append, utf8Length_append, ← Nat.add_assoc, ← Nat.add_assoc] at h
  obtain ⟨ts, hts, hlexemes⟩ := scan_dotted hmore hrest h
  have hnext : ((more.flatMap fun part => '.' :: part.toList) ++ rest).head?.any isWordPart =
      false := by
    cases more with
    | nil => exact hrest
    | cons q more => rfl
  have hall := scan_name hfirst hnext hts
  rw [← List.append_assoc, ← hchars] at hall
  exact ⟨_ :: ts, first, more, hall, hs, by rw [List.map_cons, hlexemes]⟩

end Token

end PipelineScript
