import Mathlib
import PipelineScript.Proofs.Token.Escapes
import PipelineScript.Proofs.Token.Joins

/-! # How strings may be written

A character of a string is written as it is or as one of its escapes. Main statement:
`Token.ofSource_spelling`. Between quotes, however its characters are written, a string is the only
token of a text. -/

namespace PipelineScript

theorem Text.utf8ByteSize_ofList (cs : List Char) :
    (String.ofList cs).utf8ByteSize = utf8Length cs := by
  induction cs with
  | nil => rfl
  | cons c cs ih => simp [utf8Length, ← ih]

namespace Literal

/-- The ways to write a character in a string. -/
inductive Spells : List Char → Char → Prop
  | plain {c : Char} : c ≠ '"' → c ≠ '\\' → Spells [c] c
  | escape {mark : List Char} {c : Char} : Escape mark c → Spells ('\\' :: mark) c

/-- A string is spelled character by character. -/
theorem spelled_of_spells {pieces : List (List Char)} {contents : List Char}
    (h : List.Forall₂ Spells pieces contents) : Spelled Escape pieces.flatten contents := by
  induction h with
  | nil => exact .nil
  | cons hpiece _ ih =>
    cases hpiece with
    | plain hquote hslash => exact .char hquote hslash ih
    | escape hmark => exact .escape hmark ih

theorem Spelled.mono {escapes escapes' : List Char → Char → Prop} {body contents : List Char}
    (hmono : ∀ mark x, escapes mark x → escapes' mark x) (h : Spelled escapes body contents) :
    Spelled escapes' body contents := by
  induction h with
  | nil => exact .nil
  | char hquote hslash _ ih => exact .char hquote hslash ih
  | escape hmark _ ih => exact .escape (hmono _ _ hmark) ih

/-- Quotes and backslashes have an escape, and all other characters stand for themselves. -/
theorem exists_spells (c : Char) : ∃ piece, Spells piece c := by
  by_cases hquote : c = '"'
  · subst hquote
    exact ⟨_, .escape .quote⟩
  by_cases hslash : c = '\\'
  · subst hslash
    exact ⟨_, .escape .backslash⟩
  exact ⟨_, .plain hquote hslash⟩

end Literal

namespace Token

open Literal

/-- A lexeme that takes a whole text is its only token. -/
theorem ofSource_of_read {c : Char} {body : List Char} {l : Lexeme} (hspace : isSpace c = false)
    (hread : Lexeme.read c body = .ok ⟨l, body.length⟩) (hnest : Lexeme.nest [] [l] = some []) :
    ofSource (String.ofList (c :: body)) =
      .ok [⟨l, 1, 0, (String.ofList (c :: body)).utf8ByteSize⟩] := by
  have hend (line offset : Nat) : scan line offset [] = .ok [] := by rw [scan]
  have hscan : scan 1 0 (c :: (body ++ [])) = .ok [⟨l, 1, 0, 0 + Text.utf8Length (c :: body)⟩] :=
    scan_cons hspace (by rwa [List.append_nil]) (hend _ _)
  rw [List.append_nil, Nat.zero_add] at hscan
  rw [ofSource_eq_ok, String.toList_ofList, Text.utf8ByteSize_ofList]
  exact ⟨(Balance.check_eq_ok_iff (scans_of_scan hscan)).mpr hnest, hscan⟩

/-- What spells a string is read as that string, up to the closing quote. -/
theorem read_of_spelled {body contents : List Char} (h : Spelled Escape body contents) :
    Lexeme.read '"' (body ++ ['"']) =
      .ok ⟨.str (String.ofList contents), (body ++ ['"']).length⟩ := by
  have hbody := stringBody_of_spelled (h.mono fun _ _ => Or.inl)
  have hread := readString_of_stringBody hbody 0 []
  rw [List.append_nil] at hread
  rw [read_quote, hread]
  rfl

/-- Every string can be written, and however its characters are written between quotes, the text
is one token: the string. -/
theorem ofSource_spelling (contents : String) :
    (∃ pieces, List.Forall₂ Spells pieces contents.toList) ∧
      ∀ pieces, List.Forall₂ Spells pieces contents.toList →
        let source := String.ofList ('"' :: (pieces.flatten ++ ['"']))
        ofSource source = .ok [⟨.str contents, 1, 0, source.utf8ByteSize⟩] := by
  constructor
  · choose piece hpiece using exists_spells
    exact ⟨contents.toList.map piece, List.forall₂_map_left_iff.mpr
      (List.forall₂_same.mpr fun c _ => hpiece c)⟩
  · intro pieces hpieces
    have hread := read_of_spelled (spelled_of_spells hpieces)
    rw [String.ofList_toList] at hread
    exact ofSource_of_read (by decide) hread rfl

/-- A bracket, a line feed and the opening of a comment as they are; an escape and a digit that does
not belong to it; a letter in both forms; and a quote, which has to be escaped. -/
theorem ofSource_spelling_mixed :
    let pieces := ["[", "\n", "/", "*", "\\u004a", "4", "\\u00E9", "é", "\\\""].map String.toList
    List.Forall₂ Spells pieces "[\n/*J4éé\"".toList ∧
      ofSource "\"[\n/*\\u004a4\\u00E9é\\\"\"" = .ok [⟨.str "[\n/*J4éé\"", 1, 0, 23⟩] := by
  intro pieces
  have hplain (c : Char) (hc : c ≠ '"' ∧ c ≠ '\\') : Spells [c] c := .plain hc.1 hc.2
  have hlower : Spells "\\u004a".toList 'J' :=
    .escape (.fourDigits (p := 0) (q := 0) (r := 4) (s := 10) (.inl rfl) (.inl rfl) (.inl rfl)
      (.inl rfl) rfl)
  have hupper : Spells "\\u00E9".toList 'é' :=
    .escape (.fourDigits (p := 0) (q := 0) (r := 14) (s := 9) (.inl rfl) (.inl rfl) (.inr rfl)
      (.inl rfl) rfl)
  have hspells : List.Forall₂ Spells pieces "[\n/*J4éé\"".toList :=
    .cons (hplain _ (by decide)) <| .cons (hplain _ (by decide)) <| .cons (hplain _ (by decide)) <|
    .cons (hplain _ (by decide)) <| .cons hlower <| .cons (hplain _ (by decide)) <|
    .cons hupper <| .cons (hplain _ (by decide)) <| .cons (.escape .quote) .nil
  exact ⟨hspells, (ofSource_spelling "[\n/*J4éé\"").2 pieces hspells⟩

end Token

end PipelineScript
