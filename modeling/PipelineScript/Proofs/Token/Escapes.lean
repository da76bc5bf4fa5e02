import Mathlib
import PipelineScript.Proofs.Statement.Comments

/-! # How strings are spelled

Between its quotes a string is spelled character by character, and a backslash begins an escape.
Main statement: `Token.decodes_of_ofSource`. Every string among the tokens of a text is what its
spelling there stands for, and a backslash begins one of the documented escapes, or one of four
places whose first is a plus sign. -/

namespace PipelineScript

namespace Text

theorem suffix_dropBytes (n : Nat) (cs : List Char) : dropBytes n cs <:+ cs := by
  induction cs generalizing n with
  | nil => exact List.suffix_refl _
  | cons c cs ih =>
    unfold dropBytes
    split
    · exact List.suffix_refl _
    · exact (ih _).trans (List.suffix_cons _ _)

theorem prefix_takeBytes (n : Nat) (cs : List Char) : takeBytes n cs <+: cs := by
  induction cs generalizing n with
  | nil => exact List.prefix_refl _
  | cons c cs ih =>
    unfold takeBytes
    split
    · exact List.nil_prefix
    · exact List.cons_prefix_cons.mpr ⟨rfl, ih _⟩

theorem slice_infix (start stop : Nat) (cs : List Char) : slice start stop cs <:+: cs :=
  (prefix_takeBytes _ _).isInfix.trans (suffix_dropBytes _ _).isInfix

end Text

namespace Literal

/-! ## Escapes -/

/-- The character is the hexadecimal digit of that value, a small or a capital letter from ten. -/
def IsHexDigit (c : Char) (value : Nat) : Prop :=
  "0123456789abcdef".toList[value]? = some c ∨ "0123456789ABCDEF".toList[value]? = some c

theorem hexValue?_of_isHexDigit {c : Char} {value : Nat} (h : IsHexDigit c value) :
    Text.hexValue? c = some value := by
  have hlt : value < 16 := by
    obtain h | h := h
    · exact (List.getElem?_eq_some_iff.mp h).1
    · exact (List.getElem?_eq_some_iff.mp h).1
  obtain h | h := h <;> interval_cases value <;> cases h <;> rfl

theorem isHexDigit_of_hexValue? {c : Char} {value : Nat} (h : Text.hexValue? c = some value) :
    IsHexDigit c value := by
  have hrange {lo hi : Char} (hc : (lo ≤ c && c ≤ hi) = true) :
      lo.toNat ≤ c.toNat ∧ c.toNat ≤ hi.toNat := by
    simp only [Bool.and_eq_true, decide_eq_true_eq, Char.le_def, UInt32.le_iff_toNat_le] at hc
    exact hc
  unfold IsHexDigit
  rw [← Char.ofNat_toNat c]
  unfold Text.hexValue? at h
  generalize c.toNat = n at h hrange
  split at h
  · rename_i hc
    obtain ⟨hlo, hhi⟩ : 48 ≤ n ∧ n ≤ 57 := hrange hc
    cases h
    interval_cases n <;> decide
  · split at h
    · rename_i hc
      obtain ⟨hlo, hhi⟩ : 97 ≤ n ∧ n ≤ 102 := hrange hc
      cases h
      interval_cases n <;> decide
    · split at h
      · rename_i hc
        obtain ⟨hlo, hhi⟩ : 65 ≤ n ∧ n ≤ 70 := hrange hc
        cases h
        interval_cases n <;> decide
      · cases h

theorem hexValue?_eq_some_iff {c : Char} {value : Nat} :
    Text.hexValue? c = some value ↔ IsHexDigit c value :=
  ⟨isHexDigit_of_hexValue?, hexValue?_of_isHexDigit⟩

/-- The documented escapes: what stands behind the backslash, and the character that it means. -/
inductive Escape : List Char → Char → Prop
  | lineFeed : Escape ['n'] '\n'
  | tab : Escape ['t'] '\t'
  | carriageReturn : Escape ['r'] '\r'
  | null : Escape ['0'] '\x00'
  | quote : Escape ['"'] '"'
  | apostrophe : Escape ['\''] '\''
  | backslash : Escape ['\\'] '\\'
  | fourDigits {a b c d x : Char} {p q r s : Nat} :
      IsHexDigit a p → IsHexDigit b q → IsHexDigit c r → IsHexDigit d s →
      x.toNat = 0x1000 * p + 0x100 * q + 0x10 * r + s → Escape ['u', a, b, c, d] x

/-- A plus sign in the first of the four places, and digits in the other three. -/
inductive SignedEscape : List Char → Char → Prop
  | threeDigits {a b c x : Char} {p q r : Nat} :
      IsHexDigit a p → IsHexDigit b q → IsHexDigit c r →
      x.toNat = 0x100 * p + 0x10 * q + r → SignedEscape ['u', '+', a, b, c] x

/-- What may stand behind a backslash. -/
def AnyEscape (mark : List Char) (x : Char) : Prop := Escape mark x ∨ SignedEscape mark x

theorem simpleEscape?_of_escape {e x : Char} (h : Escape [e] x) : simpleEscape? e = some x := by
  cases h <;> rfl

theorem escape_of_simpleEscape? {e x : Char} (h : simpleEscape? e = some x) : Escape [e] x := by
  unfold simpleEscape? at h
  split at h <;> cases h <;> constructor

/-- A number is the code of a character if it is valid. -/
theorem ofNat_eq_some_iff {n : Nat} {x : Char} :
    (if n.isValidChar then some (Char.ofNat n) else none) = some x ↔ x.toNat = n := by
  constructor
  · intro h
    split at h
    · rename_i hn
      cases h
      rw [Char.toNat_ofNat, if_pos hn]
    · cases h
  · rintro rfl
    have hvalid : x.toNat.isValidChar := x.valid
    rw [if_pos hvalid, Char.ofNat_toNat]

/-- Places are read digit by digit. -/
theorem mapM_hexValue?_eq_some_iff {places : List Char} {values : List Nat} :
    places.mapM Text.hexValue? = some values ↔ List.Forall₂ IsHexDigit places values := by
  induction places generalizing values with
  | nil =>
    rw [List.mapM_nil, List.forall₂_nil_left_iff]
    exact Option.some_inj.trans eq_comm
  | cons a places ih =>
    rw [List.mapM_cons, List.forall₂_cons_left_iff]
    simp only [Option.bind_eq_bind, Option.pure_def, Option.bind_eq_some_iff, ih,
      hexValue?_eq_some_iff, Option.some.injEq, @eq_comm _ _ values, exists_and_left]

/-- Four places mean the character whose code the digits among them are. -/
theorem fourPlaces?_eq_some_iff_digits {a b c d x : Char} :
    fourPlaces? a b c d = some x ↔ ∃ values,
      List.Forall₂ IsHexDigit (if a = '+' then [b, c, d] else [a, b, c, d]) values ∧
        x.toNat = values.foldl (fun n v => 16 * n + v) 0 := by
  simp only [fourPlaces?, Option.bind_eq_bind, Option.bind_eq_some_iff,
    mapM_hexValue?_eq_some_iff, ofNat_eq_some_iff]

theorem not_isHexDigit_plus (value : Nat) : ¬ IsHexDigit '+' value := by
  intro h
  cases hexValue?_of_isHexDigit h

theorem fourPlaces?_eq_some_iff {a b c d x : Char} :
    fourPlaces? a b c d = some x ↔ AnyEscape ['u', a, b, c, d] x := by
  rw [fourPlaces?_eq_some_iff_digits]
  by_cases ha : a = '+'
  · subst ha
    rw [if_pos rfl]
    constructor
    · rintro ⟨_, _ | ⟨hp, _ | ⟨hq, _ | ⟨hr, ⟨⟩⟩⟩⟩, hx⟩
      refine .inr (.threeDigits hp hq hr ?_)
      simp only [List.foldl_cons, List.foldl_nil] at hx
      omega
    · rintro (h | h) <;> cases h
      case fourDigits hp _ _ _ _ => exact absurd hp (not_isHexDigit_plus _)
      case threeDigits hp hq hr hx =>
        refine ⟨_, .cons hp (.cons hq (.cons hr .nil)), ?_⟩
        simp only [List.foldl_cons, List.foldl_nil]
        omega
  · rw [if_neg ha]
    constructor
    · rintro ⟨_, _ | ⟨hp, _ | ⟨hq, _ | ⟨hr, _ | ⟨hs, ⟨⟩⟩⟩⟩⟩, hx⟩
      refine .inl (.fourDigits hp hq hr hs ?_)
      simp only [List.foldl_cons, List.foldl_nil] at hx
      omega
    · rintro (h | h) <;> cases h
      case fourDigits hp hq hr hs hx =>
        refine ⟨_, .cons hp (.cons hq (.cons hr (.cons hs .nil))), ?_⟩
        simp only [List.foldl_cons, List.foldl_nil]
        omega
      case threeDigits => exact absurd rfl ha

/-! ## Spellings -/

/-- The text between the quotes of a string, and the contents that it stands for when a backslash
begins one of the `escapes`. -/
inductive Spelled (escapes : List Char → Char → Prop) : List Char → List Char → Prop
  | nil : Spelled escapes [] []
  | char {c : Char} {body contents : List Char} :
      c ≠ '"' → c ≠ '\\' → Spelled escapes body contents →
      Spelled escapes (c :: body) (c :: contents)
  | escape {mark body contents : List Char} {x : Char} :
      escapes mark x → Spelled escapes body contents →
      Spelled escapes ('\\' :: (mark ++ body)) (x :: contents)

theorem spelled_of_stringBody {written contents : List Char} (h : StringBody written contents) :
    ∃ body, written = body ++ ['"'] ∧ Spelled AnyEscape body contents := by
  induction h with
  | close => exact ⟨[], rfl, .nil⟩
  | fourPlaces hx _ ih =>
    obtain ⟨body, rfl, hbody⟩ := ih
    exact ⟨_, rfl, .escape (fourPlaces?_eq_some_iff.mp hx) hbody⟩
  | escape _ hx _ ih =>
    obtain ⟨body, rfl, hbody⟩ := ih
    exact ⟨_, rfl, .escape (.inl (escape_of_simpleEscape? hx)) hbody⟩
  | char hquote hslash _ ih =>
    obtain ⟨body, rfl, hbody⟩ := ih
    exact ⟨_, rfl, .char hquote hslash hbody⟩

theorem stringBody_of_spelled {body contents : List Char} (h : Spelled AnyEscape body contents) :
    StringBody (body ++ ['"']) contents := by
  induction h with
  | nil => exact .close
  | char hquote hslash _ ih => exact .char hquote hslash ih
  | @escape mark body contents x hmark _ ih =>
    have hshort {e : Char} (he : Escape [e] x) (hu : e ≠ 'u') :
        StringBody ('\\' :: e :: (body ++ ['"'])) (x :: contents) :=
      .escape hu (simpleEscape?_of_escape he) ih
    obtain h | h := hmark
    · cases h with
      | fourDigits hp hq hr hs hx =>
        exact .fourPlaces (fourPlaces?_eq_some_iff.mpr (.inl (.fourDigits hp hq hr hs hx))) ih
      | lineFeed => exact hshort .lineFeed (by decide)
      | tab => exact hshort .tab (by decide)
      | carriageReturn => exact hshort .carriageReturn (by decide)
      | null => exact hshort .null (by decide)
      | quote => exact hshort .quote (by decide)
      | apostrophe => exact hshort .apostrophe (by decide)
      | backslash => exact hshort .backslash (by decide)
    · cases h with
      | threeDigits hp hq hr hx =>
        exact .fourPlaces (fourPlaces?_eq_some_iff.mpr (.inr (.threeDigits hp hq hr hx))) ih

/-- Without a plus sign in the first place there are documented escapes only. -/
theorem Spelled.documented {body contents : List Char} (h : Spelled AnyEscape body contents)
    (hplus : ¬ ['\\', 'u', '+'] <:+: body) : Spelled Escape body contents := by
  induction h with
  | nil => exact .nil
  | char hquote hslash _ ih =>
    exact .char hquote hslash (ih fun h => hplus (h.trans (List.suffix_cons _ _).isInfix))
  | @escape mark body contents x hmark _ ih =>
    refine .escape (hmark.resolve_right fun h => ?_) (ih fun h => hplus (h.trans ?_))
    · cases h
      exact hplus ⟨[], _, rfl⟩
    · exact (List.suffix_append ('\\' :: mark) body).isInfix

end Literal

namespace Token

open Literal

/-- Every token is read from the stretch of the text between its ends. -/
theorem Scans.exists_read {offset : Nat} {cs : List Char} {ts : List Token}
    (h : Scans offset cs ts) : ∀ t ∈ ts, ∃ before c body after,
      cs = before ++ (c :: body) ++ after ∧ t.start = offset + Text.utf8Length before ∧
      t.stop = t.start + Text.utf8Length (c :: body) ∧
      Lexeme.read c (body ++ after) = .ok ⟨t.lexeme, body.length⟩ := by
  induction h with
  | done => exact List.forall_mem_nil _
  | @space offset c cs ts _ _ ih =>
    intro t ht
    obtain ⟨before, d, body, after, rfl, hstart, hstop, hread⟩ := ih t ht
    refine ⟨c :: before, d, body, after, rfl, ?_, hstop, hread⟩
    rw [hstart, Text.utf8Length, Nat.add_assoc]
  | @token offset line c body rest l ts _ hread _ ih =>
    refine List.forall_mem_cons.mpr ⟨⟨[], c, body, rest, rfl, rfl, rfl, hread⟩, fun t ht => ?_⟩
    obtain ⟨before, d, body', after, rfl, hstart, hstop, hread'⟩ := ih t ht
    refine ⟨(c :: body) ++ before, d, body', after, by simp, ?_, hstop, hread'⟩
    rw [hstart, Text.utf8Length_append, Nat.add_assoc]

theorem read_quote (rest : List Char) : Lexeme.read '"' rest =
    (readString 0 rest).map fun (contents, n) => ⟨.str (String.ofList contents), n⟩ := rfl

/-- What a string is read from. -/
theorem stringBody_of_read {c : Char} {body after : List Char} {contents : String}
    (h : Lexeme.read c (body ++ after) = .ok ⟨.str contents, body.length⟩) :
    c = '"' ∧ StringBody body contents.toList := by
  have hquote : c = '"' := by
    obtain ⟨_, _, -, -, hpiece⟩ := Lexeme.piece_of_read h
    cases hpiece with
    | str => rfl
    | plain hp => exact hp.elim
  subst hquote
  refine ⟨rfl, ?_⟩
  rw [read_quote] at h
  cases hs : readString 0 (body ++ after) with
  | error fault => rw [hs] at h; cases h
  | ok r =>
    obtain ⟨decoded, n⟩ := r
    rw [hs] at h
    cases h
    obtain ⟨written, rest, happend, hlength, hb⟩ := stringBody_of_readString hs
    obtain ⟨rfl, -⟩ := List.append_inj happend hlength
    rwa [String.toList_ofList]

/-- Every string among the tokens stands between quotes in the text, spelled with the escapes. -/
def Decodes (escapes : List Char → Char → Prop) (source : String) (tokens : List Token) : Prop :=
  ∀ t ∈ tokens, ∀ contents, t.lexeme = .str contents → ∃ body,
    Text.slice t.start t.stop source.toList = '"' :: (body ++ ['"']) ∧
      Spelled escapes body contents.toList

theorem decodes_anyEscape {source : String} {tokens : List Token}
    (h : ofSource source = .ok tokens) : Decodes AnyEscape source tokens := by
  intro t ht contents hcontents
  obtain ⟨before, c, body, after, hsource, hstart, hstop, hread⟩ :=
    (scans_of_scan (ofSource_eq_ok.mp h).2).exists_read t ht
  rw [hcontents] at hread
  obtain ⟨rfl, hb⟩ := stringBody_of_read hread
  obtain ⟨inner, rfl, hspelled⟩ := spelled_of_stringBody hb
  refine ⟨inner, ?_, hspelled⟩
  rw [hsource, hstop, hstart, Nat.zero_add, Text.slice_middle]

/-- Every string of a text is what its spelling stands for. The escapes are the documented ones,
unless a plus sign comes first in the four places of one. Every spelling is read. -/
theorem decodes_of_ofSource {source : String} {tokens : List Token}
    (h : ofSource source = .ok tokens) :
    Decodes AnyEscape source tokens ∧
    (¬ "\\u+".toList <:+: source.toList → Decodes Escape source tokens) ∧
    ∀ body contents rest, Spelled AnyEscape body contents →
      Lexeme.read '"' (body ++ '"' :: rest) =
        .ok ⟨.str (String.ofList contents), body.length + 1⟩ := by
  have hany := decodes_anyEscape h
  refine ⟨hany, fun hplus t ht contents hcontents => ?_, fun body contents rest hspelled => ?_⟩
  · obtain ⟨body, hslice, hspelled⟩ := hany t ht contents hcontents
    refine ⟨body, hslice, hspelled.documented fun hbody => hplus ?_⟩
    have hquotes : body <:+: '"' :: (body ++ ['"']) := ⟨['"'], ['"'], by simp⟩
    exact (hbody.trans hquotes).trans (hslice ▸ Text.slice_infix _ _ _)
  · have hread := readString_of_stringBody (stringBody_of_spelled hspelled) 0 rest
    rw [List.append_assoc, List.length_append] at hread
    rw [read_quote, show '"' :: rest = ['"'] ++ rest from rfl, hread]
    rfl

/-- Every way to write a character, and a plus sign in the last string. -/
theorem decodes_of_ofSource_mixed :
    let source := "x = \"a\\u00E9\\n\" // \n + \"\\u+041\""
    let tokens : List Token := [⟨.ident "x", 1, 0, 1⟩, ⟨.punct .assign, 1, 2, 3⟩,
      ⟨.str "aé\n", 1, 4, 15⟩, ⟨.comment "// ", 1, 16, 19⟩, ⟨.lineEnd false, 1, 19, 20⟩,
      ⟨.punct .plus, 2, 21, 22⟩, ⟨.str "A", 2, 23, 31⟩]
    ofSource source = .ok tokens ∧ Decodes AnyEscape source tokens := by
  intro source tokens
  have h : ofSource source = .ok tokens := by cbv
  exact ⟨h, (decodes_of_ofSource h).1⟩

/-- A plus sign is no hexadecimal digit, but it is accepted in place of one. -/
theorem signed_escape_read :
    ∃ tokens, ofSource "\"\\u+041\"" = .ok tokens ∧
      ¬ Decodes Escape "\"\\u+041\"" tokens := by
  refine ⟨[⟨.str "A", 1, 0, 8⟩], by cbv, fun h => ?_⟩
  obtain ⟨body, hslice, hspelled⟩ := h _ (List.mem_singleton_self _) "A" rfl
  have hbody : body = ['\\', 'u', '+', '0', '4', '1'] := by
    have hwhole : '"' :: (body ++ ['"']) = ['"', '\\', 'u', '+', '0', '4', '1', '"'] :=
      hslice.symm.trans (by decide)
    exact List.append_cancel_right (List.cons.inj hwhole).2
  cases hspelled with
  | char _ hslash => exact hslash (List.cons.inj hbody).1
  | escape hmark =>
    -- the only documented escape with this letter needs a digit where the plus sign stands
    cases hmark with
    | fourDigits hp =>
      cases hbody
      exact not_isHexDigit_plus _ hp

end Token

end PipelineScript
