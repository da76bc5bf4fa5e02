import Mathlib
import PipelineScript.Json.Reader
import PipelineScript.Proofs.Json.Alike

/-! # JSON text is read as it was written

The reader takes a value off the front of a text and leaves the rest, so what is shown of a value is
that its text is read before anything that may come after it (`Reads`), first of numbers and
strings, then of lists and objects whose items and members are read. What comes back lists its
members in order. Main statement: `ofText?_compact`. -/

namespace PipelineScript.Json

open Text

/-! ## Numbers -/

/-- What may come after a value: nothing, or the mark that goes on with a list or ends it. -/
def Ends (rest : List Char) : Prop := ∀ c ∈ rest.head?, c = ',' ∨ c = ']' ∨ c = '}'

theorem takeWhole_eq {value : Nat} {ds : List Char} (h : Nat.ofDigitChars 10 ds value < wordLimit) :
    takeWhole value ds = (Nat.ofDigitChars 10 ds value, 0) := by
  induction ds generalizing value with
  | nil => rw [takeWhole, Nat.ofDigitChars_nil]
  | cons d ds ih =>
    rw [Nat.ofDigitChars_cons] at h ⊢
    have hnext : 10 * value + Numeral.digitValue d < wordLimit := by
      rw [Nat.ofDigitChars_eq_ofDigitChars_zero] at h
      refine lt_of_le_of_lt ?_ h
      exact le_add_right (Nat.le_mul_of_pos_left _ (by positivity))
    rw [takeWhole, if_pos hnext]
    exact ih h

/-- Only zero is written with a zero in front. -/
theorem head?_toDigits {n : Nat} (h : 10 ≤ n) : (Nat.toDigits 10 n).head? ≠ some '0' := by
  induction n using Nat.strong_induction_on with
  | h n ih =>
    rw [Nat.toDigits_of_base_le (by decide) h, List.head?_append_of_ne_nil _ Nat.toDigits_ne_nil]
    by_cases hq : 10 ≤ n / 10
    · exact ih _ (by omega) hq
    · rw [Nat.toDigits_of_lt_base (by omega)]
      have : 0 < n / 10 := by omega
      simp; omega

theorem isAsciiDigit_toDigits {n : Nat} {c : Char} (hc : c ∈ Nat.toDigits 10 n) :
    isAsciiDigit c = true := Nat.isDigit_of_mem_toDigits (by decide) (by decide) hc

theorem readUnsigned_toDigits (negative : Bool) {n : Nat} (hn : n < wordLimit) {rest : List Char}
    (hrest : Ends rest) :
    readUnsigned negative (Nat.toDigits 10 n ++ rest) = some (ofWhole negative n, rest) := by
  have hdigits : ∀ c ∈ Nat.toDigits 10 n, isAsciiDigit c = true := fun c => isAsciiDigit_toDigits
  have hvalue : takeWhole 0 (Nat.toDigits 10 n) = (n, 0) := by
    rw [takeWhole_eq (by rwa [Nat.ofDigitChars_ten_toDigits]), Nat.ofDigitChars_ten_toDigits]
  have hzero : (Nat.toDigits 10 n).head? = some '0' → (Nat.toDigits 10 n).length ≤ 1 := by
    intro h
    by_cases hten : 10 ≤ n
    · exact absurd h (head?_toDigits hten)
    · rw [Nat.toDigits_of_lt_base (by omega)]
      exact le_rfl
  rw [readUnsigned, List.takeWhile_append_of_pos hdigits, List.dropWhile_append_of_pos hdigits]
  cases rest with
  | nil => simpa [hvalue] using hzero
  | cons c rest =>
    have hc : isAsciiDigit c = false ∧ c ≠ '.' ∧ isExponentMark c = false := by
      obtain rfl | rfl | rfl := hrest c rfl <;> decide
    simpa [hvalue, hc] using hzero

theorem toList_ofNat (n : Nat) : (toString (Int.ofNat n)).toList = Nat.toDigits 10 n := by
  show (Nat.repr n).toList = _
  rw [Nat.repr_eq_ofList_toDigits, String.toList_ofList]

theorem toList_negSucc (n : Nat) :
    (toString (Int.negSucc n)).toList = '-' :: Nat.toDigits 10 (n + 1) := by
  show ("-" ++ Nat.repr (n + 1)).toList = _
  rw [Nat.repr_eq_ofList_toDigits, String.toList_append, String.toList_ofList]
  simp

/-- What a number begins with. -/
def BeginsNumber (c : Char) : Prop := isAsciiDigit c = true ∨ c = '-'

instance (c : Char) : Decidable (BeginsNumber c) := inferInstanceAs (Decidable (_ ∨ _))

theorem toList_toString (i : Int) : ∃ c cs, (toString i).toList = c :: cs ∧ BeginsNumber c := by
  cases i with
  | ofNat n =>
    obtain ⟨d, ds, hds⟩ := List.exists_cons_of_ne_nil (Nat.toDigits_ne_nil (b := 10) (n := n))
    refine ⟨d, ds, (toList_ofNat n).trans hds, .inl (isAsciiDigit_toDigits (n := n) ?_)⟩
    exact hds ▸ List.mem_cons_self
  | negSucc n => exact ⟨'-', _, toList_negSucc n, .inr rfl⟩

theorem readNumber_toString {i : Int} (hmin : -2 ^ 63 ≤ i) (hmax : i < 2 ^ 64) {rest : List Char}
    (hrest : Ends rest) : readNumber ((toString i).toList ++ rest) = some (int i, rest) := by
  have hword : wordLimit = 2 ^ 64 := rfl
  cases i with
  | ofNat n =>
    rw [Int.ofNat_eq_natCast] at hmax
    have hread := readUnsigned_toDigits false (n := n) (by omega) hrest
    obtain ⟨d, ds, hds⟩ := List.exists_cons_of_ne_nil (Nat.toDigits_ne_nil (b := 10) (n := n))
    have hd : isAsciiDigit d = true := isAsciiDigit_toDigits (hds ▸ List.mem_cons_self)
    rw [hds, List.cons_append] at hread
    rw [toList_ofNat, hds, List.cons_append, readNumber, hread]
    · rfl
    · rintro cs hcs
      cases hcs
      cases hd
  | negSucc n =>
    have hfits : ¬ (n + 1 = 0 ∨ Numeral.twoTo 63 < n + 1) := by
      have : Numeral.twoTo 63 = 2 ^ 63 := rfl
      omega
    rw [toList_negSucc, List.cons_append, readNumber, readUnsigned_toDigits true (by omega) hrest,
      ofWhole, if_pos rfl, if_neg hfits]
    rfl

/-! ## Strings -/

theorem fourHex?_hexDigitsOf : ∀ n < 32, ∃ a b c d, hexDigitsOf n 4 = [a, b, c, d] ∧
    fourHex? a b c d = some n := by
  intro n hn
  interval_cases n <;> exact ⟨_, _, _, _, rfl, rfl⟩

theorem readString_escapeChar (c : Char) (rest : List Char) :
    readString (escapeChar c ++ rest) = (readString rest).map (consFirst c) := by
  unfold escapeChar
  split
  case h_8 hquote hbackslash _ _ _ _ _ =>
    split
    · rename_i hlt
      obtain ⟨a, b, d, e, hdigits, hread⟩ := fourHex?_hexDigitsOf c.toNat hlt
      have hsmall : c.toNat < 32 := hlt
      have hlow : isLow c.toNat = false := by simp [isLow]; omega
      have hhigh : isHigh c.toNat = false := by simp [isHigh]; omega
      rw [hdigits]
      show readString ('\\' :: 'u' :: a :: b :: d :: e :: rest) = _
      rw [readString]
      simp [hread, hlow, hhigh, Char.ofNat_toNat]
    · rename_i hlt
      rw [List.cons_append, List.nil_append, readString]
      · rw [if_neg (not_or.mpr ⟨hlt, hbackslash⟩)]
      · exact hquote
      · exact fun _ _ _ _ _ h _ => hbackslash h
      · exact fun _ _ h _ => hbackslash h
  all_goals rfl

theorem toList_stringText (s : String) (rest : List Char) :
    (stringText s).toList ++ rest = '"' :: (s.toList.flatMap escapeChar ++ '"' :: rest) := by
  simp [stringText]

theorem readText_stringText (s : String) (rest : List Char) :
    readText ((s.toList.flatMap escapeChar) ++ '"' :: rest) = some (s, rest) := by
  have hread : ∀ cs, readString (cs.flatMap escapeChar ++ '"' :: rest) = some (cs, rest) := by
    intro cs
    induction cs with
    | nil => rfl
    | cons c cs ih =>
      rw [List.flatMap_cons, List.append_assoc, readString_escapeChar, ih]
      rfl
  simp [readText, hread]

/-! ## Values -/

mutual

/-- The value that is read when `j` was written: objects list their members in order. -/
def arranged : Json → Json
  | arr items => arr (arrangedItems items)
  | obj members => obj (Table.ofEntries (arrangedMembers members))
  | j => j

def arrangedItems : List Json → List Json
  | [] => []
  | j :: rest => arranged j :: arrangedItems rest

def arrangedMembers : List (String × Json) → List (String × Json)
  | [] => []
  | (k, j) :: rest => (k, arranged j) :: arrangedMembers rest

end

/-- No doubles, whole numbers of 64 bits, members with different names, and no more than `depth`
lists and objects inside each other. -/
inductive Plain : Nat → Json → Prop
  | null {depth : Nat} : Plain depth null
  | bool {depth : Nat} (b : Bool) : Plain depth (bool b)
  | int {depth : Nat} {i : Int} (hmin : -2 ^ 63 ≤ i) (hmax : i < 2 ^ 64) : Plain depth (int i)
  | str {depth : Nat} (s : String) : Plain depth (str s)
  | arr {depth : Nat} {items : List Json} (h : ∀ j ∈ items, Plain depth j) :
    Plain (depth + 1) (arr items)
  | obj {depth : Nat} {members : List (String × Json)} (hkeys : (members.map Prod.fst).Nodup)
    (h : ∀ m ∈ members, Plain depth m.2) : Plain (depth + 1) (obj members)

/-- The text of `j` is read as `j`, and what comes after it is left. -/
def Reads (depth : Nat) (j : Json) : Prop := ∀ fuel rest, 2 * j.compact.length < fuel → Ends rest →
  readValue fuel depth (j.compact.toList ++ rest) = some (j.arranged, rest)

/-- As much fuel as is asked for is never none. -/
theorem Reads.of_succ {depth : Nat} {j : Json}
    (h : ∀ fuel rest, 2 * j.compact.length ≤ fuel → Ends rest →
      readValue (fuel + 1) depth (j.compact.toList ++ rest) = some (j.arranged, rest)) :
    Reads depth j := by
  intro fuel rest hfuel hrest
  cases fuel with
  | zero => cases hfuel
  | succ fuel => exact h fuel rest (Nat.le_of_lt_succ hfuel) hrest

section

variable (fuel depth : Nat) (cs : List Char)

theorem readValue_quote : readValue (fuel + 1) depth ('"' :: cs) =
    (readText cs).map fun (s, rest) => (str s, rest) := rfl

theorem readValue_bracket : readValue (fuel + 1) (depth + 1) ('[' :: cs) =
    match skipBlanks cs with
    | ']' :: rest => some (arr [], rest)
    | rest => (readItems fuel depth rest).map fun (js, rest) => (arr js, rest) := rfl

theorem readValue_brace : readValue (fuel + 1) (depth + 1) ('\x7b' :: cs) =
    match skipBlanks cs with
    | '\x7d' :: rest => some (obj [], rest)
    | rest => (readMembers fuel depth rest).map fun (ms, rest) =>
      (obj (Table.ofEntries ms), rest) := rfl

end

theorem reads_null (depth : Nat) : Reads depth null := .of_succ fun _ _ _ _ => rfl

theorem reads_bool (depth : Nat) (b : Bool) : Reads depth (bool b) :=
  .of_succ fun _ _ _ _ => by cases b <;> rfl

theorem reads_str (depth : Nat) (s : String) : Reads depth (str s) := by
  refine .of_succ fun fuel rest _ _ => ?_
  rw [compact, toList_stringText, readValue_quote, readText_stringText]
  rfl

theorem isJsonBlank_of_beginsNumber {c : Char} (h : BeginsNumber c) : isJsonBlank c = false := by
  by_contra hblank
  simp only [isJsonBlank, Bool.not_eq_false, Bool.or_eq_true, beq_iff_eq] at hblank
  obtain ((rfl | rfl) | rfl) | rfl := hblank <;> exact absurd h (by decide)

theorem readValue_number {c : Char} (hc : BeginsNumber c) (fuel depth : Nat) (cs : List Char) :
    readValue (fuel + 1) depth (c :: cs) = readNumber (c :: cs) := by
  have hskip : skipBlanks (c :: cs) = c :: cs :=
    List.dropWhile_cons_of_neg (by simp [isJsonBlank_of_beginsNumber hc])
  rw [readValue.eq_def]
  simp only [hskip]
  split
  case h_7 => rfl
  all_goals
    cases ‹c :: cs = _›
    exact absurd hc (by decide)

theorem reads_int (depth : Nat) {i : Int} (hmin : -2 ^ 63 ≤ i) (hmax : i < 2 ^ 64) :
    Reads depth (int i) := by
  refine .of_succ fun fuel rest _ hrest => ?_
  obtain ⟨c, cs, hcs, hc⟩ := toList_toString i
  have hread := readNumber_toString hmin hmax hrest
  rw [hcs, List.cons_append] at hread
  rw [compact, hcs, List.cons_append, readValue_number hc, hread]
  rfl

/-- A value begins with a mark that is neither blank nor the end of a list. -/
theorem toList_compact {depth : Nat} {j : Json} (h : Plain depth j) :
    ∃ c cs, j.compact.toList = c :: cs ∧ isJsonBlank c = false ∧ c ≠ ']' := by
  cases h with
  | null => exact ⟨'n', _, rfl, rfl, by decide⟩
  | arr => exact ⟨'[', _, by simp only [compact, String.toList_append]; rfl, rfl, by decide⟩
  | obj => exact ⟨'\x7b', _, by simp only [compact, String.toList_append]; rfl, rfl, by decide⟩
  | str s => exact ⟨'"', _, by simpa [compact] using toList_stringText s [], rfl, by decide⟩
  | bool b => cases b <;> exact ⟨_, _, rfl, rfl, by decide⟩
  | int =>
    obtain ⟨c, cs, hcs, hc⟩ := toList_toString _
    refine ⟨c, cs, hcs, isJsonBlank_of_beginsNumber hc, ?_⟩
    rintro rfl
    exact absurd hc (by decide)

/-! ## Lists and objects -/

theorem readItems_compactItems {depth : Nat} {items : List Json} (hne : items ≠ [])
    (h : ∀ j ∈ items, Reads depth j) : ∀ fuel rest, 2 * (compactItems items).length + 1 < fuel →
    readItems fuel depth ((compactItems items).toList ++ ']' :: rest) =
      some (arrangedItems items, rest) := by
  induction items with
  | nil => exact absurd rfl hne
  | cons j items ih =>
    obtain ⟨hj, hitems⟩ := List.forall_mem_cons.mp h
    intro fuel rest hfuel
    cases fuel with
    | zero => omega
    | succ fuel =>
      cases items with
      | nil =>
        rw [compactItems] at hfuel ⊢
        rw [readItems, hj fuel _ (by omega) (by simp [Ends])]
        rfl
      | cons k more =>
        have hlength : (compactItems (j :: k :: more)).length =
            j.compact.length + 1 + (compactItems (k :: more)).length := by
          simp only [compactItems, String.length_append]
          rfl
        have htext : (compactItems (j :: k :: more)).toList ++ ']' :: rest =
            j.compact.toList ++ ',' :: ((compactItems (k :: more)).toList ++ ']' :: rest) := by
          simp [compactItems]
        have hrest := ih (List.cons_ne_nil _ _) hitems fuel rest (by omega)
        rw [htext, readItems, hj fuel _ (by omega) (by simp [Ends])]
        have hskip (cs : List Char) : skipBlanks (',' :: cs) = ',' :: cs := rfl
        simp only [Option.bind_eq_bind, Option.bind_some, hskip, hrest]
        rfl

/-- A member is read with those that come after it. -/
theorem readMembers_member {key : String} {j : Json} {ms : List (String × Json)} {fuel depth : Nat}
    {after rest : List Char}
    (hj : readValue fuel depth (j.compact.toList ++ after) = some (j.arranged, after))
    (hafter : after = '\x7d' :: rest ∧ ms = [] ∨
      ∃ more, after = ',' :: more ∧ readMembers fuel depth more = some (ms, rest)) :
    readMembers (fuel + 1) depth ((stringText key ++ ":" ++ j.compact).toList ++ after) =
      some ((key, j.arranged) :: ms, rest) := by
  have hquote (cs : List Char) : skipBlanks ('"' :: cs) = '"' :: cs := rfl
  have hcolon (cs : List Char) : skipBlanks (':' :: cs) = ':' :: cs := rfl
  have hcomma (cs : List Char) : skipBlanks (',' :: cs) = ',' :: cs := rfl
  have hbrace (cs : List Char) : skipBlanks ('\x7d' :: cs) = '\x7d' :: cs := rfl
  have htext : (stringText key ++ ":" ++ j.compact).toList ++ after =
      (stringText key).toList ++ ':' :: (j.compact.toList ++ after) := by simp
  rw [htext, toList_stringText, readMembers]
  simp only [hquote, hcolon, readText_stringText, hj, Option.bind_eq_bind, Option.bind_some]
  obtain ⟨rfl, rfl⟩ | ⟨more, rfl, hmore⟩ := hafter
  · simp only [hbrace]
  · simp only [hcomma, hmore, Option.bind_some]

theorem readMembers_compactMembers {depth : Nat} {members : List (String × Json)}
    (hne : members ≠ []) (h : ∀ m ∈ members, Reads depth m.2) : ∀ fuel rest,
    2 * (compactMembers members).length + 1 < fuel →
    readMembers fuel depth ((compactMembers members).toList ++ '\x7d' :: rest) =
      some (arrangedMembers members, rest) := by
  induction members with
  | nil => exact absurd rfl hne
  | cons member members ih =>
    obtain ⟨key, j⟩ := member
    obtain ⟨hj, hmembers⟩ : Reads depth j ∧ ∀ m ∈ members, Reads depth m.2 :=
      List.forall_mem_cons.mp h
    intro fuel rest hfuel
    cases fuel with
    | zero => omega
    | succ fuel =>
      cases members with
      | nil =>
        have hlength : j.compact.length ≤ (compactMembers [(key, j)]).length := by
          simp only [compactMembers, String.length_append]
          omega
        rw [compactMembers]
        exact readMembers_member (hj fuel _ (by omega) (by simp [Ends])) (.inl ⟨rfl, rfl⟩)
      | cons next more =>
        have hlength : j.compact.length + 1 + (compactMembers (next :: more)).length ≤
            (compactMembers ((key, j) :: next :: more)).length := by
          have : ",".length = 1 := rfl
          simp only [compactMembers, String.length_append]
          omega
        have htext : (compactMembers ((key, j) :: next :: more)).toList ++ '\x7d' :: rest =
            (stringText key ++ ":" ++ j.compact).toList ++
              ',' :: ((compactMembers (next :: more)).toList ++ '\x7d' :: rest) := by
          simp [compactMembers]
        have hrest := ih (List.cons_ne_nil _ _) hmembers fuel rest (by omega)
        rw [htext]
        exact readMembers_member (hj fuel _ (by omega) (by simp [Ends])) (.inr ⟨_, rfl, hrest⟩)

theorem toList_compactItems {depth : Nat} {j : Json} (h : Plain depth j) (items : List Json) :
    ∃ c cs, (compactItems (j :: items)).toList = c :: cs ∧ isJsonBlank c = false ∧ c ≠ ']' := by
  obtain ⟨c, cs, hcs, hc⟩ := toList_compact h
  cases items with
  | nil => exact ⟨c, cs, hcs, hc⟩
  | cons k more => exact ⟨c, _, by simp only [compactItems, String.toList_append, hcs]; rfl, hc⟩

theorem reads_arr {depth : Nat} {items : List Json} (hplain : ∀ j ∈ items, Plain depth j)
    (h : ∀ j ∈ items, Reads depth j) : Reads (depth + 1) (arr items) := by
  refine .of_succ fun fuel rest hfuel _ => ?_
  have htext : (arr items).compact.toList ++ rest =
      '[' :: ((compactItems items).toList ++ ']' :: rest) := by simp [compact]
  have hlength : (arr items).compact.length = (compactItems items).length + 2 := by
    have : "[".length = 1 := rfl
    have : "]".length = 1 := rfl
    simp only [compact, String.length_append]
    omega
  rw [htext, readValue_bracket]
  cases items with
  | nil => rfl
  | cons j more =>
    obtain ⟨c, cs, hcs, hblank, hc⟩ := toList_compactItems (hplain j List.mem_cons_self) more
    have hitems := readItems_compactItems (List.cons_ne_nil j more) h fuel rest (by omega)
    have hskip : skipBlanks (c :: (cs ++ ']' :: rest)) = c :: (cs ++ ']' :: rest) :=
      List.dropWhile_cons_of_neg (by simp [hblank])
    rw [hcs, List.cons_append] at hitems ⊢
    rw [hskip]
    split
    · cases ‹c :: _ = _›
      exact absurd rfl hc
    · rw [hitems]
      rfl

theorem reads_obj {depth : Nat} {members : List (String × Json)}
    (h : ∀ m ∈ members, Reads depth m.2) : Reads (depth + 1) (obj members) := by
  refine .of_succ fun fuel rest hfuel _ => ?_
  have htext : (obj members).compact.toList ++ rest =
      '\x7b' :: ((compactMembers members).toList ++ '\x7d' :: rest) := by simp [compact]
  have hlength : (obj members).compact.length = (compactMembers members).length + 2 := by
    have : "\x7b".length = 1 := rfl
    have : "\x7d".length = 1 := rfl
    simp only [compact, String.length_append]
    omega
  rw [htext, readValue_brace]
  cases members with
  | nil => rfl
  | cons member more =>
    obtain ⟨key, j⟩ := member
    have hmembers :=
      readMembers_compactMembers (List.cons_ne_nil (key, j) more) h fuel rest (by omega)
    -- the quote of the first key stands where the end of an empty object would
    obtain ⟨cs, hcs⟩ : ∃ cs, (compactMembers ((key, j) :: more)).toList = '"' :: cs := by
      cases more <;> simp [compactMembers, stringText]
    have hskip (cs : List Char) : skipBlanks ('"' :: cs) = '"' :: cs := rfl
    rw [hcs, List.cons_append] at hmembers ⊢
    rw [hskip]
    show (readMembers fuel depth ('"' :: (cs ++ '\x7d' :: rest))).map _ = _
    rw [hmembers]
    rfl

theorem Plain.reads {depth : Nat} {j : Json} (h : Plain depth j) : Reads depth j := by
  induction h with
  | null => exact reads_null _
  | bool b => exact reads_bool _ b
  | int hmin hmax => exact reads_int _ hmin hmax
  | str s => exact reads_str _ s
  | arr h ih => exact reads_arr h ih
  | obj _ _ ih => exact reads_obj ih

theorem arrangedItems_eq (items : List Json) : arrangedItems items = items.map arranged := by
  induction items with
  | nil => rfl
  | cons j rest ih => rw [arrangedItems, ih, List.map_cons]

theorem arrangedMembers_eq (members : List (String × Json)) :
    arrangedMembers members = members.map fun m => (m.1, m.2.arranged) := by
  induction members with
  | nil => rfl
  | cons m rest ih =>
    obtain ⟨k, j⟩ := m
    rw [arrangedMembers, ih, List.map_cons]

theorem get?_arrangedMembers (members : List (String × Json)) (key : String) :
    Table.get? (arrangedMembers members) key = (Table.get? members key).map arranged := by
  induction members with
  | nil => rfl
  | cons m rest ih =>
    obtain ⟨k, v⟩ := m
    rw [arrangedMembers, Table.get?, Table.get?, ih]
    split <;> rfl

theorem keys_arrangedMembers (members : List (String × Json)) :
    (arrangedMembers members).map Prod.fst = members.map Prod.fst := by
  rw [arrangedMembers_eq, List.map_map]
  rfl

/-- Nothing is lost when members are listed in order. -/
theorem Plain.alike_arranged {depth : Nat} {j : Json} (h : Plain depth j) : j.Alike j.arranged := by
  induction h with
  | null => exact .null
  | bool b => exact .bool b
  | int => exact .int _
  | str s => exact .str s
  | @arr _ items _ ih =>
    rw [arranged, arrangedItems_eq]
    exact .arr (List.forall₂_map_right_iff.mpr (List.forall₂_same.mpr ih))
  | @obj _ members hkeys _ ih =>
    refine .obj fun key => ?_
    have hkeys' : ((arrangedMembers members).map Prod.fst).Nodup := by rwa [keys_arrangedMembers]
    rw [Table.get?_ofEntries hkeys', get?_arrangedMembers]
    cases hfound : Table.get? members key with
    | none => exact .none
    | some v => exact .some (ih _ (Table.mem_of_get? hfound))

/-- A plain value is read from its text. -/
theorem Plain.ofText?_compact {j : Json} (h : Plain 127 j) :
    Json.ofText? j.compact = some j.arranged := by
  have hread := h.reads (2 * j.compact.toList.length + 2) [] (by rw [String.length_toList]; omega)
    (by simp [Ends])
  rw [List.append_nil] at hread
  rw [ofText?, hread]
  rfl

/-- What is read is the value itself up to the order of members. -/
theorem ofText?_compact {j : Json} (h : Plain 127 j) :
    ∃ j', Json.ofText? j.compact = some j' ∧ j.Alike j' :=
  ⟨j.arranged, h.ofText?_compact, h.alike_arranged⟩

end PipelineScript.Json
