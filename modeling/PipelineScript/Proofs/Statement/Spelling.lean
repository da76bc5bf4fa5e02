import PipelineScript.Proofs.Statement.Printed
import PipelineScript.Proofs.Statement.Quotes

/-! # How a print is scanned

Items that fit are scanned one behind the other (`PrintItem.exists_spelled`): a word becomes its
token, an expression the tokens of its own text. -/

namespace PipelineScript

open Text Token

/-- The text of the expression has these tokens, and it does not end with a comment. -/
structure SourceExpr.Owns (e : SourceExpr) (own : List Token) : Prop where
  tokens : Token.ofSource e.source = .ok own
  ends : ∀ t ∈ own.getLast?, t.lexeme.isComment = false

namespace PrintItem

/-- The item can be printed and read again. -/
def Valid : PrintItem → Prop
  | name s => IsName s
  | path s => IsPath s
  | expr e => ∃ own, e.Owns own
  | lines e => (∃ own, Token.ofSource e.source = .ok own) ∧ Trimmed e.source.toList
  | _ => True

/-- The tokens, of a text without its comments, are those of the item. -/
def Spells (text : List Char) : PrintItem → List Token → Prop
  | keyword k, ts => ∃ t, ts = [t] ∧ t.lexeme = .keyword k
  | name s, ts => ∃ t, ts = [t] ∧ t.lexeme = .ident s
  | path s, ts => ∃ first more, s = ".".intercalate (first :: more) ∧
      ts.map Token.lexeme = .ident first :: dotted more
  | mark p, ts => ∃ t, ts = [t] ∧ t.lexeme = .punct p
  | key s, ts => ∃ t, ts = [t] ∧ t.lexeme = .str s
  | expr e, ts => ∃ own, Quotes text e own ts
  | lines e, ts => Cursor.sourceOf? text ts = some e ∧ Balanced ts
  | space, ts => ts = []
  | feed, ts => ∃ t, ts = [t] ∧ t.lexeme = .lineEnd false

end PrintItem

namespace PrintItem

theorem nest_dotted (stack : List Bracket) (more : List String) :
    Lexeme.nest stack (dotted more) = some stack := by
  induction more with
  | nil => rfl
  | cons part more ih => exact ih

theorem Spells.nest {text : List Char} {p : PrintItem} {ts : List Token} (h : p.Spells text ts)
    (stack : List Bracket) :
    Lexeme.nest stack (ts.map Token.lexeme) = Lexeme.nestOne stack p.bracket := by
  have hfeed : Lexeme.nestOne stack (.lineEnd false) = some stack :=
    Lexeme.nestOne_of_none rfl rfl stack
  cases p with
  | keyword | name | key =>
    obtain ⟨t, rfl, ht⟩ := h
    rw [List.map_singleton, ht]
    rfl
  | mark p =>
    obtain ⟨t, rfl, ht⟩ := h
    rw [List.map_singleton, ht, Lexeme.nest_cons]
    show _ = Lexeme.nestOne stack (.punct p)
    cases Lexeme.nestOne stack (.punct p) <;> rfl
  | path s =>
    obtain ⟨first, more, -, ht⟩ := h
    rw [ht]
    exact (nest_dotted stack more).trans hfeed.symm
  | expr e =>
    obtain ⟨own, hquotes⟩ := h
    exact (hquotes.balanced.nest stack).trans hfeed.symm
  | lines e => exact (h.2.nest stack).trans hfeed.symm
  | space => rw [show ts = [] from h]; rfl
  | feed =>
    obtain ⟨t, rfl, ht⟩ := h
    rw [List.map_singleton, ht]
    rfl

end PrintItem

/-- The tokens are those of the items, one behind the other. -/
inductive Spelled (text : List Char) : List PrintItem → List Token → Prop
  | nil : Spelled text [] []
  | cons {p : PrintItem} {items : List PrintItem} {ts us : List Token} :
      p.Spells text ts → Spelled text items us → Spelled text (p :: items) (ts ++ us)

namespace Spelled

variable {text : List Char} {items more : List PrintItem} {ts : List Token}

theorem append (h : Spelled text (items ++ more) ts) :
    ∃ us vs, ts = us ++ vs ∧ Spelled text items us ∧ Spelled text more vs := by
  induction items generalizing ts with
  | nil => exact ⟨[], ts, rfl, .nil, h⟩
  | cons p items ih =>
    cases h with
    | @cons _ _ us vs hp hrest =>
      obtain ⟨vs, ws, rfl, hitems, hmore⟩ := ih hrest
      exact ⟨us ++ vs, ws, (List.append_assoc _ _ _).symm, .cons hp hitems, hmore⟩

/-- The brackets of the tokens are those of the items. -/
theorem nest (h : Spelled text items ts) (stack : List Bracket) :
    Lexeme.nest stack (ts.map Token.lexeme) = Lexeme.nest stack (items.map PrintItem.bracket) := by
  induction h generalizing stack with
  | nil => rfl
  | @cons p items ts us hp _ ih =>
    rw [List.map_append, Lexeme.nest_append, List.map_cons, Lexeme.nest_cons, hp.nest]
    exact congrArg _ (funext ih)

end Spelled

namespace PrintItem

/-- Between quotes stands what is read as the key. -/
theorem stringBody_escape (contents : List Char) :
    Literal.StringBody (contents.flatMap escape ++ ['"']) contents := by
  induction contents with
  | nil => exact .close
  | cons c contents ih =>
    rw [List.flatMap_cons, List.append_assoc]
    unfold escape
    split
    · exact .escape (by decide) rfl ih
    · exact .escape (by decide) rfl ih
    · exact .escape (by decide) rfl ih
    · rename_i hquote hslash _
      exact .char hquote hslash ih

theorem uncommented_of_lexemes {ts : List Token}
    (h : ∀ l ∈ ts.map Token.lexeme, l.isComment = false) : uncommented ts = ts := by
  refine List.filter_eq_self.mpr fun t ht => ?_
  rw [h _ (List.mem_map_of_mem ht)]
  rfl

theorem isComment_of_mem_dotted {more : List String} :
    ∀ l ∈ dotted more, l.isComment = false := by
  intro l hl
  obtain ⟨part, -, hl⟩ := List.mem_flatMap.mp hl
  simp only [List.mem_cons, List.not_mem_nil, or_false] at hl
  rcases hl with rfl | rfl <;> rfl

theorem quotes_of_scan {e : SourceExpr} {own : List Token}
    (hown : Token.ofSource e.source = .ok own) (pre rest : List Char) (lines : Nat) :
    Quotes (pre ++ e.source.toList ++ rest) e own
      ((uncommented own).map (shift lines (utf8Length pre))) := by
  refine ⟨hown, pre, rest, (uncommented own).map fun t => (t, t.shift lines (utf8Length pre)),
    rfl, ?_, ?_, ?_⟩
  · simp [Function.comp_def]
  · simp [Function.comp_def]
  · intro p hp
    obtain ⟨t, -, rfl⟩ := List.mem_map.mp hp
    exact ⟨rfl, rfl, rfl⟩

theorem scan_lines {e : SourceExpr} {own us : List Token}
    (hown : Token.ofSource e.source = .ok own) (htrimmed : Trimmed e.source.toList)
    (pre rest : List Char)
    (h : scan (1 + newlines pre + newlines (lines e).chars)
      (utf8Length pre + utf8Length (lines e).chars) rest = .ok us) :
    ∃ ts, scan (1 + newlines pre) (utf8Length pre) ((lines e).chars ++ rest) = .ok (ts ++ us) ∧
      (lines e).Spells (pre ++ (lines e).chars ++ rest) (uncommented ts) := by
  have hfeed (cs : List Char) : Lexeme.read '\n' ([] ++ cs) = .ok ⟨.lineEnd false, 0⟩ := rfl
  have hs : isSpace '\n' = false := by decide
  have hchars : (lines e).chars = ['\n'] ++ e.source.toList ++ ['\n'] := rfl
  rw [hchars, newlines_append, newlines_append, utf8Length_append, utf8Length_append] at h
  simp only [← Nat.add_assoc] at h
  have hlast := scan_cons hs (hfeed rest) h
  have hmoved := scan_shift (Token.ofSource_eq_ok.mp hown).2 (newlines (pre ++ ['\n']))
    (utf8Length (pre ++ ['\n']))
  rw [Nat.zero_add, newlines_append, utf8Length_append, ← Nat.add_assoc] at hmoved
  have hall := scan_cons hs (hfeed _) (scan_append (by decide) hmoved (.inl rfl) hlast)
  have hquotes := quotes_of_scan hown (pre ++ ['\n']) ('\n' :: rest) (newlines (pre ++ ['\n']))
  rw [utf8Length_append, newlines_append] at hquotes
  -- the first and the last token are the line feeds
  generalize hf : (⟨.lineEnd false, 1 + newlines pre, utf8Length pre, _⟩ : Token) = first at hall
  generalize hl : (⟨.lineEnd false, _, _, _⟩ : Token) = last at hall
  generalize htail : own.map (shift (newlines pre + newlines ['\n'])
    (utf8Length pre + utf8Length ['\n'])) = tail at hall
  have hcode : uncommented (first :: (tail ++ [last])) =
      first :: ((uncommented own).map (shift (newlines pre + newlines ['\n'])
        (utf8Length pre + utf8Length ['\n'])) ++ [last]) := by
    rw [uncommented_cons (by rw [← hf]; rfl), uncommented_append, ← htail, uncommented_map_shift,
      uncommented_cons (by rw [← hl]; rfl)]
    rfl
  refine ⟨first :: (tail ++ [last]), ?_, ?_, ?_⟩
  · simpa [hchars] using hall
  · have hslice :
        slice first.start last.stop (pre ++ (lines e).chars ++ rest) = (lines e).chars := by
      have hplace := slice_middle pre (lines e).chars rest
      rw [hchars] at hplace ⊢
      rw [utf8Length_append, utf8Length_append, ← Nat.add_assoc, ← Nat.add_assoc] at hplace
      rw [← hf, ← hl]
      exact hplace
    have htrim : trim (lines e).chars = e.source.toList := by
      rw [hchars]
      exact trim_between (by decide) (by decide) htrimmed
    have hends (row : List Token) : Cursor.sourceOf? (pre ++ (lines e).chars ++ rest)
        (first :: (row ++ [last])) = some ⟨String.ofList
          (trim (slice first.start last.stop (pre ++ (lines e).chars ++ rest)))⟩ := by
      rw [Cursor.sourceOf?, List.head?_cons, ← List.cons_append, List.getLast?_concat]
    rw [hcode, hends, hslice, htrim, String.ofList_toList]
  · rw [hcode]
    refine .cons (by rw [← hf]; rfl) (by rw [← hf]; rfl) (.append hquotes.balanced ?_)
    exact balanced_singleton (by rw [← hl]; rfl) (by rw [← hl]; rfl)

/-- An item is scanned in front of what does not carry it on. -/
theorem scan_item {p : PrintItem} (hp : p.Valid) (pre rest : List Char)
    (hrest : p.isOpen = true → Ended rest) {us : List Token}
    (h : scan (1 + newlines pre + newlines p.chars) (utf8Length pre + utf8Length p.chars) rest =
      .ok us) :
    ∃ ts, scan (1 + newlines pre) (utf8Length pre) (p.chars ++ rest) = .ok (ts ++ us) ∧
      p.Spells (pre ++ p.chars ++ rest) (uncommented ts) := by
  cases p with
  | keyword k => exact ⟨[_], scan_keyword k (hrest rfl).any_isWordPart h, _, rfl, rfl⟩
  | name s => exact ⟨[_], scan_name hp (hrest rfl).any_isWordPart h, _, rfl, rfl⟩
  | path s =>
    obtain ⟨ts, first, more, hscan, hs, hlexemes⟩ := scan_path hp (hrest rfl).any_isWordPart h
    refine ⟨ts, hscan, first, more, hs, ?_⟩
    rw [uncommented_of_lexemes, hlexemes]
    rw [hlexemes]
    exact List.forall_mem_cons.mpr ⟨rfl, isComment_of_mem_dotted⟩
  | mark p =>
    refine ⟨[_], scan_mark ?_ h, _, rfl, rfl⟩
    cases hl : p.isLone with
    | true => exact .inl rfl
    | false => exact .inr (hrest (by simp [isOpen, hl]))
  | key s =>
    have hread : Lexeme.read '"' ((s.toList.flatMap escape ++ ['"']) ++ rest) =
        .ok ⟨.str s, (s.toList.flatMap escape ++ ['"']).length⟩ := by
      have hbody := Literal.readString_of_stringBody (stringBody_escape s.toList) 0 rest
      have hquote (body : List Char) : Lexeme.read '"' body =
          (Literal.readString 0 body).map fun found => ⟨.str (String.ofList found.1), found.2⟩ :=
        rfl
      rw [hquote, hbody]
      show Except.ok (⟨.str (String.ofList s.toList), _⟩ : Lexeme.Taken) = _
      rw [String.ofList_toList]
    exact ⟨[_], scan_cons (by decide) hread h, _, rfl, rfl⟩
  | expr e =>
    obtain ⟨own, hown, hlast⟩ := hp
    have hmoved := scan_shift (Token.ofSource_eq_ok.mp hown).2 (newlines pre) (utf8Length pre)
    rw [Nat.zero_add] at hmoved
    have hend : ∀ t ∈ (own.map (shift (newlines pre) (utf8Length pre))).getLast?,
        t.lexeme.isComment = false := by
      intro t ht
      rw [List.getLast?_map] at ht
      obtain ⟨u, hu, rfl⟩ := Option.map_eq_some_iff.mp ht
      exact hlast u hu
    refine ⟨_, scan_ended hmoved hend (hrest rfl) h, own, ?_⟩
    rw [uncommented_map_shift]
    exact quotes_of_scan hown pre rest _
  | lines e => exact scan_lines hp.1.choose_spec hp.2 pre rest h
  | space =>
    refine ⟨[], ?_, rfl⟩
    show scan _ _ (' ' :: rest) = _
    rw [scan, if_pos (by decide)]
    simpa [chars, newlines, utf8Length] using h
  | feed =>
    have hfeed : Lexeme.read '\n' ([] ++ rest) = .ok ⟨.lineEnd false, 0⟩ := rfl
    exact ⟨[_], scan_cons (by decide) hfeed h, _, rfl, rfl⟩

/-- What bounds an item carries nothing on. -/
theorem ended_of_bounds {items : List PrintItem} (h : items.head?.all bounds = true) :
    Ended (items.flatMap chars) := by
  cases items with
  | nil => rfl
  | cons p items =>
    rw [List.flatMap_cons]
    cases p with
    | mark p => cases p <;> first | (cases h; done) | rfl
    | key | lines | space | feed => rfl
    | _ => cases h

/-- Items that fit are scanned one behind the other. -/
theorem exists_spelled {items : List PrintItem} (hvalid : ∀ p ∈ items, p.Valid)
    (hfits : fits items = true) (pre : List Char) :
    ∃ ts, scan (1 + newlines pre) (utf8Length pre) (items.flatMap chars) = .ok ts ∧
      Spelled (pre ++ items.flatMap chars) items (uncommented ts) := by
  induction items generalizing pre with
  | nil => exact ⟨[], by rw [List.flatMap_nil, scan], .nil⟩
  | cons p items ih =>
    obtain ⟨hp, hvalid⟩ := List.forall_mem_cons.mp hvalid
    have hnext : fits items = true ∧ (p.isOpen = true → items.head?.all bounds = true) := by
      cases items with
      | nil => exact ⟨rfl, fun _ => rfl⟩
      | cons q items =>
        obtain ⟨hq, hitems⟩ := Bool.and_eq_true_iff.mp hfits
        refine ⟨hitems, fun ho => ?_⟩
        rw [ho] at hq
        exact hq
    obtain ⟨us, hus, hspelled⟩ := ih hvalid hnext.1 (pre ++ p.chars)
    rw [newlines_append, utf8Length_append, ← Nat.add_assoc] at hus
    obtain ⟨ts, hts, hspells⟩ :=
      scan_item hp pre (items.flatMap chars) (fun ho => ended_of_bounds (hnext.2 ho)) hus
    rw [List.flatMap_cons]
    refine ⟨ts ++ us, hts, ?_⟩
    rw [uncommented_append]
    rw [List.append_assoc] at hspells hspelled
    exact .cons hspells hspelled

end PrintItem

/-- A print of valid items whose brackets nest has tokens, and these are those of the items. -/
theorem exists_tokens_of_items {items : List PrintItem} (hvalid : ∀ p ∈ items, p.Valid)
    (hfits : PrintItem.fits items = true) (hnests : PrintItem.Nests items) :
    ∃ ts, Balance.check (items.flatMap PrintItem.chars) = .ok () ∧
      scan 1 0 (items.flatMap PrintItem.chars) = .ok ts ∧
      Spelled (items.flatMap PrintItem.chars) items (uncommented ts) := by
  obtain ⟨ts, hts, hspelled⟩ := PrintItem.exists_spelled hvalid hfits []
  refine ⟨ts, ?_, hts, hspelled⟩
  have hbalanced : Balanced (uncommented ts) := (hspelled.nest []).trans (hnests [])
  exact (Balance.check_eq_ok_iff (scans_of_scan hts)).mpr
    ((balanced_iff (code_filter ts)).mp hbalanced)

end PipelineScript
