import PipelineScript.Proofs.Expression.Grammar

/-! # Climbing reads the grammar

The reader of expressions climbs: it takes an operator only if its level is high enough, and goes on
from what it has read so far. What it reads is a phrase of the stratified grammar (`sound`), and it
reads every phrase that nothing behind it carries on (`complete_of_derives`). -/

namespace PipelineScript.Expression

open Lexeme

variable {ε α β : Type} {fuel level : Nat} {ts rest : List Lexeme} {e : Expression}

theorem bind_eq_ok {x : Except ε α} {f : α → Except ε β} {b : β} :
    (x >>= f) = .ok b ↔ ∃ a, x = .ok a ∧ f a = .ok b := by
  cases x with
  | error fault => simp [bind, Except.bind]
  | ok a => simp [bind, Except.bind]

theorem skipMark_eq_ok {p : Punct} : skipMark p ts = .ok rest ↔ ts = punct p :: rest := by
  cases ts with
  | nil => simp [skipMark]
  | cons t ts =>
    by_cases ht : t = punct p <;> simp [skipMark, ht]

theorem skipMark_self (p : Punct) : skipMark p (punct p :: rest) = .ok rest :=
  skipMark_eq_ok.mpr rfl

theorem ok_bind (a : α) (f : α → Except ε β) : (Except.ok a >>= f) = f a := rfl

theorem operator?_eq_some {op : BinaryOp} :
    operator? level ts = some (op, rest) ↔
      ∃ p, ts = punct p :: rest ∧ BinaryOp.ofMark? p = some op ∧ level ≤ op.level := by
  unfold operator?
  split
  · rename_i p ts
    cases hp : BinaryOp.ofMark? p with
    | none => simp [hp]
    | some op' =>
      by_cases hl : level ≤ op'.level <;> simp [hp, hl] <;> grind
  · rename_i hts
    simp only [reduceCtorEq, false_iff]
    rintro ⟨p, rfl, -⟩
    exact hts p rest rfl

theorem level_le (op : BinaryOp) : op.level ≤ 6 := by cases op <;> decide

theorem operator?_of_tight (h : 6 < level) : operator? level ts = none := by
  rw [Option.eq_none_iff_forall_ne_some]
  rintro ⟨op, rest⟩ hop
  obtain ⟨-, -, -, hl⟩ := operator?_eq_some.mp hop
  have := level_le op
  omega

/-- No call goes on with `rest`. -/
def EndsAtom (rest : List Lexeme) : Prop := rest.head? ≠ some (punct .openParen)

theorem readPrimary_variable {name : String} (h : EndsAtom ts) :
    readPrimary (fuel + 1) (ident name :: ts) = .ok (.variable_ name, ts) := by
  cases ts with
  | nil => rfl
  | cons t ts =>
    cases t with
    | punct p => cases p <;> first | rfl | exact absurd rfl h
    | _ => rfl

theorem readPrimary_float (digits : String) :
    readPrimary (fuel + 1) (float digits :: ts) =
      match Numeral.readFloat? digits.toList with
      | some value => .ok (.literal (.float value), ts)
      | none => .error (.badNumber digits) := rfl

/-! ## Soundness -/

/-- The lexemes before `rest` are the phrase. -/
def Reads (p : Phrase) (ts rest : List Lexeme) : Prop := ∃ used, ts = used ++ rest ∧ Derives p used

/-- What the readers read with some fuel are phrases. The readers that go on from a tree are given
what it was read from, and a loop of operators that the operator ahead, if any, is no tighter than
those behind. -/
structure Sound (fuel : Nat) : Prop where
  choice {ts rest : List Lexeme} {e : Expression} :
    readChoice fuel ts = .ok (e, rest) → Reads (.choice e) ts rest
  chain {level : Nat} {ts rest : List Lexeme} {e : Expression} :
    level ≤ 7 → readBinary fuel level ts = .ok (e, rest) →
      Reads (.chain level e) ts rest ∧ operator? level rest = none
  operators {level m : Nat} {left e : Expression} {before ts rest : List Lexeme} :
    level ≤ m → Derives (.chain m left) before → operator? (m + 1) ts = none →
      readOperators fuel level left ts = .ok (e, rest) →
      Reads (.chain level e) (before ++ ts) rest ∧ operator? level rest = none
  signed {ts rest : List Lexeme} {e : Expression} :
    readUnary fuel ts = .ok (e, rest) → Reads (.signed e) ts rest
  accesses {target e : Expression} {before ts rest : List Lexeme} :
    Derives (.access target) before → readAccesses fuel target ts = .ok (e, rest) →
      Reads (.access e) (before ++ ts) rest
  atom {ts rest : List Lexeme} {e : Expression} :
    readPrimary fuel ts = .ok (e, rest) → Reads (.atom e) ts rest
  list {close : Punct} {ts rest : List Lexeme} {es : List Expression} :
    readList fuel close ts = .ok (es, rest) → Reads (.list es) ts (punct close :: rest)
  items {close : Punct} {ts rest : List Lexeme} {es : List Expression} :
    readItems fuel close ts = .ok (es, rest) → Reads (.items es) ts (punct close :: rest)

namespace Sound

variable (ih : Sound fuel)
include ih

theorem readChoice_succ (h : readChoice (fuel + 1) ts = .ok (e, rest)) :
    Reads (.choice e) ts rest := by
  unfold readChoice at h
  obtain ⟨⟨condition, ts₁⟩, hc, h₁⟩ := bind_eq_ok.mp h
  obtain ⟨⟨cs, rfl, hcs⟩, -⟩ := ih.chain (Nat.zero_le _) hc
  dsimp only at h₁
  split at h₁
  · rename_i ts₂
    obtain ⟨⟨yes, ts₃⟩, hy, h₂⟩ := bind_eq_ok.mp h₁
    obtain ⟨ts₄, hcolon, h₃⟩ := bind_eq_ok.mp h₂
    obtain ⟨⟨no, ts₅⟩, hn, h₄⟩ := bind_eq_ok.mp h₃
    cases h₄
    obtain ⟨ys, rfl, hys⟩ := ih.choice hy
    obtain rfl := skipMark_eq_ok.mp hcolon
    obtain ⟨ns, rfl, hns⟩ := ih.choice hn
    exact ⟨_, by simp, .choice hcs.first_level hys hns⟩
  · cases h₁
    exact ⟨cs, rfl, .plain hcs.first_level⟩

theorem readBinary_succ (hl : level ≤ 7) (h : readBinary (fuel + 1) level ts = .ok (e, rest)) :
    Reads (.chain level e) ts rest ∧ operator? level rest = none := by
  unfold readBinary at h
  obtain ⟨⟨left, ts₁⟩, hu, h₁⟩ := bind_eq_ok.mp h
  obtain ⟨before, rfl, hbefore⟩ := ih.signed hu
  exact ih.operators hl (.operand hbefore) (operator?_of_tight (by decide)) h₁

theorem readOperators_succ {m : Nat} {left : Expression} {before : List Lexeme} (hl : level ≤ m)
    (hleft : Derives (.chain m left) before) (hts : operator? (m + 1) ts = none)
    (h : readOperators (fuel + 1) level left ts = .ok (e, rest)) :
    Reads (.chain level e) (before ++ ts) rest ∧ operator? level rest = none := by
  unfold readOperators at h
  split at h
  · rename_i op ts₁ hop
    obtain ⟨⟨right, ts₂⟩, hr, h₁⟩ := bind_eq_ok.mp h
    obtain ⟨p, rfl, hp, hlevel⟩ := operator?_eq_some.mp hop
    obtain ⟨⟨rs, rfl, hrs⟩, hnext⟩ := ih.chain (Nat.succ_le_succ (level_le op)) hr
    -- the operator is no tighter than those on its left, so it may take them all
    have hm : op.level ≤ m := by
      refine Nat.le_of_not_lt fun hgt => ?_
      rw [operator?_eq_some.mpr ⟨p, rfl, hp, by omega⟩] at hts
      cases hts
    have hbinary := Derives.binary (mem_operatorsOf_iff.mpr ⟨hp, rfl⟩) (hleft.loosen hm) hrs
    simpa using ih.operators hlevel hbinary hnext h₁
  · rename_i hnone
    cases h
    exact ⟨⟨before, rfl, hleft.loosen hl⟩, hnone⟩

theorem readUnary_succ (h : readUnary (fuel + 1) ts = .ok (e, rest)) :
    Reads (.signed e) ts rest := by
  unfold readUnary at h
  split at h
  · obtain ⟨⟨operand, ts₁⟩, hu, h₁⟩ := bind_eq_ok.mp h
    cases h₁
    obtain ⟨us, rfl, hus⟩ := ih.signed hu
    exact ⟨_, rfl, .negate hus⟩
  · obtain ⟨⟨operand, ts₁⟩, hu, h₁⟩ := bind_eq_ok.mp h
    cases h₁
    obtain ⟨us, rfl, hus⟩ := ih.signed hu
    exact ⟨_, rfl, .not hus⟩
  · obtain ⟨⟨target, ts₁⟩, ht, h₁⟩ := bind_eq_ok.mp h
    obtain ⟨before, rfl, hbefore⟩ := ih.atom ht
    obtain ⟨used, hused, hd⟩ := ih.accesses (.whole hbefore) h₁
    exact ⟨used, hused, .unsigned hd⟩

theorem readAccesses_succ {target : Expression} {before : List Lexeme}
    (ht : Derives (.access target) before)
    (h : readAccesses (fuel + 1) target ts = .ok (e, rest)) :
    Reads (.access e) (before ++ ts) rest := by
  unfold readAccesses at h
  split at h
  · split at h
    · cases h
    · rename_i t ts₁
      split at h
      · rename_i name hname
        have hd : Derives (.access (.field target name)) (before ++ [punct .dot, t]) := by
          unfold fieldName? at hname
          split at hname <;> cases hname
          · exact .fieldIdent ht
          · exact .fieldKeyword ht
        simpa using ih.accesses hd h
      · cases h
  · obtain ⟨⟨index, ts₁⟩, hi, h₁⟩ := bind_eq_ok.mp h
    obtain ⟨ts₂, hclose, h₂⟩ := bind_eq_ok.mp h₁
    obtain ⟨is, rfl, his⟩ := ih.choice hi
    obtain rfl := skipMark_eq_ok.mp hclose
    simpa using ih.accesses (.item ht his) h₂
  · cases h
    exact ⟨before, rfl, ht⟩

theorem readPrimary_succ (h : readPrimary (fuel + 1) ts = .ok (e, rest)) :
    Reads (.atom e) ts rest := by
  match ts, h with
  | [], h => cases h
  | .int _ :: _, h => cases h; exact ⟨_, rfl, .int⟩
  | .float digits :: ts, h =>
    rw [readPrimary_float] at h
    split at h
    · rename_i hf
      cases h; exact ⟨_, rfl, .float hf⟩
    · cases h
  | .str _ :: _, h => cases h; exact ⟨_, rfl, .str⟩
  | .keyword word :: _, h =>
    cases word <;> cases h
    · exact ⟨_, rfl, .true_⟩
    · exact ⟨_, rfl, .false_⟩
    · exact ⟨_, rfl, .null⟩
  | .systemIdent _ :: _, h => cases h; exact ⟨_, rfl, .systemVariable⟩
  | .ident _ :: ts, h =>
    by_cases hend : EndsAtom ts
    · rw [readPrimary_variable hend] at h
      cases h; exact ⟨_, rfl, .variable_⟩
    · obtain ⟨ts, rfl⟩ := List.head?_eq_some_iff.mp (Decidable.not_not.mp hend)
      obtain ⟨⟨args, ts₁⟩, ha, h₁⟩ := bind_eq_ok.mp h
      cases h₁
      obtain ⟨as, rfl, has⟩ := ih.list ha
      exact ⟨_, by simp, .call has⟩
  | .punct p :: ts, h =>
    cases p with
    | openParen =>
      obtain ⟨⟨inner, ts₁⟩, hi, h₁⟩ := bind_eq_ok.mp h
      obtain ⟨ts₂, hclose, h₂⟩ := bind_eq_ok.mp h₁
      cases h₂
      obtain ⟨is, rfl, his⟩ := ih.choice hi
      obtain rfl := skipMark_eq_ok.mp hclose
      exact ⟨_, by simp, .parens his⟩
    | openBracket =>
      obtain ⟨⟨items, ts₁⟩, hi, h₁⟩ := bind_eq_ok.mp h
      cases h₁
      obtain ⟨is, rfl, his⟩ := ih.list hi
      exact ⟨_, by simp, .listed his⟩
    | _ => cases h
  | .lineEnd _ :: _, h => cases h
  | .comment _ :: _, h => cases h

theorem readList_succ {close : Punct} {es : List Expression}
    (h : readList (fuel + 1) close ts = .ok (es, rest)) :
    Reads (.list es) ts (punct close :: rest) := by
  unfold readList at h
  split at h
  · rename_i hclose
    obtain ⟨ts₁, rfl⟩ := List.head?_eq_some_iff.mp hclose
    cases h
    exact ⟨[], rfl, .none⟩
  · obtain ⟨used, hused, hd⟩ := ih.items h
    exact ⟨used, hused, .some hd⟩

theorem readItems_succ {close : Punct} {es : List Expression}
    (h : readItems (fuel + 1) close ts = .ok (es, rest)) :
    Reads (.items es) ts (punct close :: rest) := by
  unfold readItems at h
  obtain ⟨⟨first, ts₁⟩, hf, h₁⟩ := bind_eq_ok.mp h
  obtain ⟨fs, rfl, hfs⟩ := ih.choice hf
  dsimp only at h₁
  split at h₁
  · obtain ⟨⟨items, ts₂⟩, hi, h₂⟩ := bind_eq_ok.mp h₁
    cases h₂
    obtain ⟨is, rfl, his⟩ := ih.items hi
    exact ⟨_, by simp, .more hfs his⟩
  · obtain ⟨ts₂, hclose, h₂⟩ := bind_eq_ok.mp h₁
    cases h₂
    obtain rfl := skipMark_eq_ok.mp hclose
    exact ⟨fs, rfl, .last hfs⟩

end Sound

theorem sound (fuel : Nat) : Sound fuel := by
  induction fuel with
  | zero => constructor <;> (intros; rename_i h; cases h)
  | succ fuel ih =>
    exact {
      choice := ih.readChoice_succ
      chain := ih.readBinary_succ
      operators := ih.readOperators_succ
      signed := ih.readUnary_succ
      accesses := ih.readAccesses_succ
      atom := ih.readPrimary_succ
      list := ih.readList_succ
      items := ih.readItems_succ }

/-! ## Completeness -/

/-- The lexemes that a phrase may start with. -/
def Phrase.MayStart : Phrase → Lexeme → Prop
  | .access _, t | .atom _, t =>
    t ∉ [punct .closeParen, punct .closeBracket, punct .minus, punct .bang]
  | _, t => t ∉ [punct .closeParen, punct .closeBracket]

theorem Derives.start {p : Phrase} (h : Derives p ts) :
    p = .list [] ∨ ∃ t us, ts = t :: us ∧ p.MayStart t := by
  induction h with
  | plain _ ih | tighter _ ih | operand _ ih | some _ ih | last _ ih =>
    obtain ⟨⟨⟩⟩ | ⟨t, us, rfl, ht⟩ := ih
    exact .inr ⟨t, us, rfl, ht⟩
  | unsigned _ ih =>
    obtain ⟨⟨⟩⟩ | ⟨t, us, rfl, ht⟩ := ih
    simp only [Phrase.MayStart, List.mem_cons, not_or] at ht
    exact .inr ⟨t, us, rfl, by simp [Phrase.MayStart, ht]⟩
  | whole _ ih | fieldIdent _ ih | fieldKeyword _ ih =>
    obtain ⟨⟨⟩⟩ | ⟨t, us, rfl, ht⟩ := ih
    exact .inr ⟨t, _, rfl, ht⟩
  | choice _ _ _ ih | binary _ _ _ ih | item _ _ ih | more _ _ ih =>
    obtain ⟨⟨⟩⟩ | ⟨t, us, rfl, ht⟩ := ih
    exact .inr ⟨t, _, rfl, ht⟩
  | none => exact .inl rfl
  | _ => exact .inr ⟨_, _, rfl, by simp [Phrase.MayStart]⟩

/-- No access goes on with `rest`, either. -/
def EndsAccess (rest : List Lexeme) : Prop :=
  EndsAtom rest ∧ rest.head? ≠ some (punct .dot) ∧ rest.head? ≠ some (punct .openBracket)

/-- No expression goes on with `rest`. -/
def EndsChoice (rest : List Lexeme) : Prop :=
  EndsAccess rest ∧ operator? 0 rest = none ∧ rest.head? ≠ some (punct .question)

theorem endsAccess_of_operator {p : Punct} {op : BinaryOp} (h : BinaryOp.ofMark? p = some op) :
    EndsAccess (punct p :: rest) := by
  cases p <;> first | cases h; done | simp [EndsAccess, EndsAtom]

theorem endsChoice_of_mark {p : Punct}
    (h : p ∈ [.closeParen, .closeBracket, .comma, .colon]) : EndsChoice (punct p :: rest) := by
  simp only [List.mem_cons, List.not_mem_nil, or_false] at h
  rcases h with rfl | rfl | rfl | rfl <;> simp [EndsChoice, EndsAccess, EndsAtom, operator?,
    BinaryOp.ofMark?]

theorem operator?_mono {m : Nat} (h : operator? m rest = none) (hm : m ≤ level) :
    operator? level rest = none := by
  rw [Option.eq_none_iff_forall_ne_some] at h ⊢
  rintro ⟨op, us⟩ hop
  obtain ⟨p, rfl, hp, hl⟩ := operator?_eq_some.mp hop
  exact h (op, us) (operator?_eq_some.mpr ⟨p, rfl, hp, by omega⟩)

theorem readOperators_end (h : operator? level rest = none) (hf : 0 < fuel) :
    readOperators fuel level e rest = .ok (e, rest) := by
  obtain ⟨fuel, rfl⟩ := Nat.exists_eq_succ_of_ne_zero (Nat.ne_of_gt hf)
  unfold readOperators
  rw [h]
  rfl

theorem readAccesses_end (h : EndsAccess rest) (hf : 0 < fuel) :
    readAccesses fuel e rest = .ok (e, rest) := by
  obtain ⟨fuel, rfl⟩ := Nat.exists_eq_succ_of_ne_zero (Nat.ne_of_gt hf)
  unfold readAccesses
  split
  · exact absurd rfl h.2.1
  · exact absurd rfl h.2.2
  · rfl

/-- The readers read the phrase, whatever follows that does not carry it on. A chain and an access
may be carried on: their readers come to the point where they go on from the tree of the phrase, with
what is left of their fuel. -/
def Completes : Phrase → List Lexeme → Prop
  | .choice e, ts => ∀ fuel rest, 8 * ts.length + 8 ≤ fuel → EndsChoice rest →
    readChoice fuel (ts ++ rest) = .ok (e, rest)
  | .chain m e, ts => ∀ fuel level rest, 8 * ts.length + 7 ≤ fuel → level ≤ m →
    EndsAccess rest → operator? (m + 1) rest = none → ∃ left, fuel ≤ left + ts.length + 1 ∧
      readBinary fuel level (ts ++ rest) = readOperators left level e rest
  | .signed e, ts => ∀ fuel rest, 8 * ts.length + 6 ≤ fuel → EndsAccess rest →
    readUnary fuel (ts ++ rest) = .ok (e, rest)
  | .access e, ts => ∀ fuel rest, 8 * ts.length + 5 ≤ fuel → EndsAtom rest →
    ∃ left, fuel ≤ left + ts.length ∧
      (readPrimary fuel (ts ++ rest) >>= fun (target, us) => readAccesses fuel target us) =
        readAccesses left e rest
  | .atom e, ts => ∀ fuel rest, 8 * ts.length + 5 ≤ fuel → EndsAtom rest →
    readPrimary fuel (ts ++ rest) = .ok (e, rest)
  | .list es, ts => ∀ fuel close rest, 8 * ts.length + 10 ≤ fuel →
    close ∈ [Punct.closeParen, .closeBracket] →
    readList fuel close (ts ++ punct close :: rest) = .ok (es, rest)
  | .items es, ts => ∀ fuel close rest, 8 * ts.length + 9 ≤ fuel →
    close ∈ [Punct.closeParen, .closeBracket] →
    readItems fuel close (ts ++ punct close :: rest) = .ok (es, rest)

namespace Completes

/-- A chain that nothing carries on is read to its end. -/
theorem readBinary {m : Nat} (h : Completes (.chain m e) ts) (hf : 8 * ts.length + 7 ≤ fuel)
    (hl : level ≤ m) (hend : EndsAccess rest) (hop : operator? level rest = none) :
    readBinary fuel level (ts ++ rest) = .ok (e, rest) := by
  obtain ⟨left, hleft, hread⟩ := h fuel level rest hf hl hend (operator?_mono hop (by omega))
  rw [hread, readOperators_end hop (by omega)]

theorem plain (h : Completes (.chain 1 e) ts) : Completes (.choice e) ts := by
  intro fuel rest hf hend
  obtain ⟨fuel, rfl⟩ : ∃ n, fuel = n + 1 := ⟨fuel - 1, by omega⟩
  have hc := h.readBinary (show _ ≤ fuel by omega) (Nat.zero_le 1) hend.1 hend.2.1
  simp only [readChoice, hc, ok_bind]
  split
  · exact absurd rfl hend.2.2
  · rfl

theorem choice {c y n : Expression} {cs ys ns : List Lexeme} (hc : Completes (.chain 1 c) cs)
    (hy : Completes (.choice y) ys) (hn : Completes (.choice n) ns) :
    Completes (.choice (.choice c y n))
      (cs ++ punct .question :: (ys ++ punct .colon :: ns)) := by
  intro fuel rest hf hend
  simp only [List.length_append, List.length_cons] at hf
  obtain ⟨fuel, rfl⟩ : ∃ n, fuel = n + 1 := ⟨fuel - 1, by omega⟩
  have hcs := hc.readBinary (show _ ≤ fuel by omega) (Nat.zero_le 1)
    (show EndsAccess (punct .question :: (ys ++ punct .colon :: (ns ++ rest))) by
      simp [EndsAccess, EndsAtom]) rfl
  have hys := hy fuel (punct .colon :: (ns ++ rest)) (by omega) (endsChoice_of_mark (by simp))
  have hns := hn fuel rest (by omega) hend
  simp only [List.append_assoc, List.cons_append, readChoice, hcs, hys, hns, ok_bind,
    skipMark_self]
  rfl

theorem operand (h : Completes (.signed e) ts) : Completes (.chain 7 e) ts := by
  intro fuel level rest hf _ hend _
  obtain ⟨fuel, rfl⟩ : ∃ n, fuel = n + 1 := ⟨fuel - 1, by omega⟩
  have hu := h fuel rest (by omega) hend
  exact ⟨fuel, by omega, by simp only [Expression.readBinary, hu, ok_bind]⟩

theorem tighter (h : Completes (.chain (level + 1) e) ts) : Completes (.chain level e) ts := by
  intro fuel lowest rest hf hl hend hop
  exact h fuel lowest rest hf (by omega) hend (operator?_mono hop (by omega))

/-- The left operand is carried on by the operator, and with it by what follows. -/
theorem binary {p : Punct} {op : BinaryOp} {l r : Expression} {ls rs : List Lexeme}
    (hop : (p, op) ∈ operatorsOf level) (hl : Completes (.chain level l) ls)
    (hr : Completes (.chain (level + 1) r) rs) :
    Completes (.chain level (.binary op l r)) (ls ++ punct p :: rs) := by
  obtain ⟨hp, rfl⟩ := mem_operatorsOf_iff.mp hop
  intro fuel lowest rest hf hlow hend hnext
  simp only [List.length_append, List.length_cons] at hf ⊢
  have htake {m : Nat} (hm : m ≤ op.level) :
      operator? m (punct p :: (rs ++ rest)) = some (op, rs ++ rest) :=
    operator?_eq_some.mpr ⟨p, rfl, hp, hm⟩
  have hstop : operator? (op.level + 1) (punct p :: (rs ++ rest)) = none := by
    simp [operator?, hp]
  obtain ⟨left, hleft, hread⟩ := hl fuel lowest (punct p :: (rs ++ rest)) (by omega) hlow
    (endsAccess_of_operator hp) hstop
  obtain ⟨left, rfl⟩ : ∃ n, left = n + 1 := ⟨left - 1, by omega⟩
  have hright := hr.readBinary (show _ ≤ left by omega) (Nat.le_refl _) hend hnext
  refine ⟨left, by omega, ?_⟩
  rw [List.append_assoc, List.cons_append, hread]
  simp only [readOperators, htake hlow, hright, ok_bind]

theorem negate (h : Completes (.signed e) ts) :
    Completes (.signed (.unary .negate e)) (punct .minus :: ts) := by
  intro fuel rest hf hend
  rw [List.length_cons] at hf
  obtain ⟨fuel, rfl⟩ : ∃ n, fuel = n + 1 := ⟨fuel - 1, by omega⟩
  have hu := h fuel rest (by omega) hend
  simp only [List.cons_append, readUnary, hu, ok_bind]
  rfl

theorem not (h : Completes (.signed e) ts) :
    Completes (.signed (.unary .not e)) (punct .bang :: ts) := by
  intro fuel rest hf hend
  rw [List.length_cons] at hf
  obtain ⟨fuel, rfl⟩ : ∃ n, fuel = n + 1 := ⟨fuel - 1, by omega⟩
  have hu := h fuel rest (by omega) hend
  simp only [List.cons_append, readUnary, hu, ok_bind]
  rfl

theorem unsigned (hd : Derives (.access e) ts) (h : Completes (.access e) ts) :
    Completes (.signed e) ts := by
  intro fuel rest hf hend
  obtain ⟨fuel, rfl⟩ : ∃ n, fuel = n + 1 := ⟨fuel - 1, by omega⟩
  obtain ⟨left, hleft, hread⟩ := h fuel rest (by omega) hend.1
  obtain ⟨⟨⟩⟩ | ⟨t, us, rfl, ht⟩ := hd.start
  simp only [Phrase.MayStart, List.mem_cons, not_or] at ht
  rw [readAccesses_end hend (by omega)] at hread
  unfold readUnary
  rw [List.cons_append] at hread ⊢
  split
  · rename_i heq; cases heq; exact absurd rfl ht.2.2.1
  · rename_i heq; cases heq; exact absurd rfl ht.2.2.2.1
  · exact hread

theorem whole (h : Completes (.atom e) ts) : Completes (.access e) ts := by
  intro fuel rest hf hend
  have ha := h fuel rest hf hend
  exact ⟨fuel, by omega, by rw [ha]; rfl⟩

theorem field {t : Lexeme} {name : String} (ht : fieldName? t = some name)
    (h : Completes (.access e) ts) :
    Completes (.access (.field e name)) (ts ++ [punct .dot, t]) := by
  intro fuel rest hf _
  simp only [List.length_append, List.length_cons, List.length_nil] at hf ⊢
  obtain ⟨left, hleft, hread⟩ := h fuel (punct .dot :: t :: rest) (by omega)
    (by simp [EndsAtom])
  obtain ⟨left, rfl⟩ : ∃ n, left = n + 1 := ⟨left - 1, by omega⟩
  refine ⟨left, by omega, ?_⟩
  rw [List.append_assoc, List.cons_append, List.cons_append, List.nil_append, hread]
  simp only [readAccesses, ht]

theorem item {i : Expression} {is : List Lexeme} (h : Completes (.access e) ts)
    (hi : Completes (.choice i) is) : Completes (.access (.item e i))
      (ts ++ punct .openBracket :: (is ++ [punct .closeBracket])) := by
  intro fuel rest hf _
  simp only [List.length_append, List.length_cons, List.length_nil] at hf ⊢
  obtain ⟨left, hleft, hread⟩ := h fuel
    (punct .openBracket :: (is ++ punct .closeBracket :: rest)) (by omega) (by simp [EndsAtom])
  obtain ⟨left, rfl⟩ : ∃ n, left = n + 1 := ⟨left - 1, by omega⟩
  have hindex := hi left (punct .closeBracket :: rest) (by omega)
    (endsChoice_of_mark (by simp))
  refine ⟨left, by omega, ?_⟩
  simp only [List.append_assoc, List.cons_append, List.nil_append, hread, readAccesses, hindex,
    ok_bind, skipMark_self]

theorem variable_ {name : String} : Completes (.atom (.variable_ name)) [ident name] := by
  intro fuel rest hf hend
  obtain ⟨fuel, rfl⟩ : ∃ n, fuel = n + 1 := ⟨fuel - 1, by omega⟩
  exact readPrimary_variable hend

theorem call {name : String} {args : List Expression} (h : Completes (.list args) ts) :
    Completes (.atom (.call name args))
      (ident name :: punct .openParen :: (ts ++ [punct .closeParen])) := by
  intro fuel rest hf _
  simp only [List.length_append, List.length_cons, List.length_nil] at hf
  obtain ⟨fuel, rfl⟩ : ∃ n, fuel = n + 1 := ⟨fuel - 1, by omega⟩
  simp only [List.cons_append, List.append_assoc, List.nil_append]
  exact bind_eq_ok.mpr ⟨(args, rest), h fuel .closeParen rest (by omega) (by simp), rfl⟩

theorem listed {es : List Expression} (h : Completes (.list es) ts) :
    Completes (.atom (.list es)) (punct .openBracket :: (ts ++ [punct .closeBracket])) := by
  intro fuel rest hf _
  simp only [List.length_append, List.length_cons, List.length_nil] at hf
  obtain ⟨fuel, rfl⟩ : ∃ n, fuel = n + 1 := ⟨fuel - 1, by omega⟩
  simp only [List.cons_append, List.append_assoc, List.nil_append]
  exact bind_eq_ok.mpr ⟨(es, rest), h fuel .closeBracket rest (by omega) (by simp), rfl⟩

theorem parens (h : Completes (.choice e) ts) :
    Completes (.atom e) (punct .openParen :: (ts ++ [punct .closeParen])) := by
  intro fuel rest hf _
  simp only [List.length_append, List.length_cons, List.length_nil] at hf
  obtain ⟨fuel, rfl⟩ : ∃ n, fuel = n + 1 := ⟨fuel - 1, by omega⟩
  have hi := h fuel (punct .closeParen :: rest) (by omega) (endsChoice_of_mark (by simp))
  simp only [List.cons_append, List.append_assoc, List.nil_append]
  exact bind_eq_ok.mpr ⟨_, hi, bind_eq_ok.mpr ⟨rest, skipMark_self _, rfl⟩⟩

/-- An atom of one lexeme. -/
theorem single {t : Lexeme}
    (h : ∀ fuel rest, readPrimary (fuel + 1) (t :: rest) = .ok (e, rest)) :
    Completes (.atom e) [t] := by
  intro fuel rest hf _
  obtain ⟨fuel, rfl⟩ : ∃ n, fuel = n + 1 := ⟨fuel - 1, by omega⟩
  exact h fuel rest

theorem none : Completes (.list []) [] := by
  intro fuel close rest hf _
  obtain ⟨fuel, rfl⟩ : ∃ n, fuel = n + 1 := ⟨fuel - 1, by omega⟩
  simp [readList, pure, Except.pure]

theorem some {es : List Expression} (hd : Derives (.items es) ts) (h : Completes (.items es) ts) :
    Completes (.list es) ts := by
  intro fuel close rest hf hclose
  obtain ⟨fuel, rfl⟩ : ∃ n, fuel = n + 1 := ⟨fuel - 1, by omega⟩
  have hread := h fuel close rest (by omega) hclose
  obtain ⟨⟨⟩⟩ | ⟨t, us, rfl, ht⟩ := hd.start
  simp only [Phrase.MayStart, List.mem_cons, List.not_mem_nil, or_false, not_or] at ht hclose
  have hne : t ≠ punct close := by
    rcases hclose with rfl | rfl
    · exact ht.1
    · exact ht.2
  simp only [List.cons_append] at hread ⊢
  simp [readList, hne, hread]

theorem last (h : Completes (.choice e) ts) : Completes (.items [e]) ts := by
  intro fuel close rest hf hclose
  obtain ⟨fuel, rfl⟩ : ∃ n, fuel = n + 1 := ⟨fuel - 1, by omega⟩
  have hsub : close ∈ [Punct.closeParen, .closeBracket, .comma, .colon] := by
    simp only [List.mem_cons, List.not_mem_nil, or_false] at hclose ⊢
    exact hclose.imp_right .inl
  have hread := h fuel (punct close :: rest) (by omega) (endsChoice_of_mark hsub)
  simp only [readItems, hread, ok_bind]
  split
  · rename_i heq; cases heq; simp at hclose
  · rw [skipMark_self]; rfl

theorem more {es : List Expression} {us : List Lexeme} (h : Completes (.choice e) ts)
    (hes : Completes (.items es) us) : Completes (.items (e :: es)) (ts ++ punct .comma :: us) := by
  intro fuel close rest hf hclose
  simp only [List.length_append, List.length_cons] at hf
  obtain ⟨fuel, rfl⟩ : ∃ n, fuel = n + 1 := ⟨fuel - 1, by omega⟩
  have hfirst := h fuel (punct .comma :: (us ++ punct close :: rest)) (by omega)
    (endsChoice_of_mark (by simp))
  have hmore := hes fuel close rest (by omega) hclose
  simp only [List.append_assoc, List.cons_append, readItems, hfirst, hmore, ok_bind]
  rfl

end Completes

theorem complete_of_derives {p : Phrase} (h : Derives p ts) : Completes p ts := by
  induction h with
  | plain _ ih => exact ih.plain
  | choice _ _ _ ihc ihy ihn => exact ihc.choice ihy ihn
  | operand _ ih => exact ih.operand
  | tighter _ ih => exact ih.tighter
  | binary hop _ _ ihl ihr => exact .binary hop ihl ihr
  | negate _ ih => exact ih.negate
  | not _ ih => exact ih.not
  | unsigned h ih => exact .unsigned h ih
  | whole _ ih => exact ih.whole
  | fieldIdent _ ih => exact .field rfl ih
  | fieldKeyword _ ih => exact .field rfl ih
  | item _ _ ih ihi => exact ih.item ihi
  | int => exact .single fun _ _ => rfl
  | float hf => exact .single fun _ _ => by rw [readPrimary_float, hf]
  | str => exact .single fun _ _ => rfl
  | true_ => exact .single fun _ _ => rfl
  | false_ => exact .single fun _ _ => rfl
  | null => exact .single fun _ _ => rfl
  | variable_ => exact .variable_
  | systemVariable => exact .single fun _ _ => rfl
  | call _ ih => exact ih.call
  | listed _ ih => exact ih.listed
  | parens _ ih => exact ih.parens
  | none => exact .none
  | some h ih => exact .some h ih
  | last _ ih => exact ih.last
  | more _ _ ih ihs => exact ih.more ihs

/-! ## Whole rows -/

theorem readChoice_eq_ok_iff (hf : 8 * (ts.length + 1) ≤ fuel) :
    readChoice fuel ts = .ok (e, []) ↔ Derives (.choice e) ts := by
  constructor
  · intro h
    obtain ⟨used, rfl, hd⟩ := (sound fuel).choice h
    rwa [List.append_nil]
  · intro hd
    have hend : EndsChoice [] := by simp [EndsChoice, EndsAccess, EndsAtom, operator?]
    have hread := complete_of_derives hd fuel [] (by omega) hend
    rwa [List.append_nil] at hread

theorem ofLexemes_eq_ok_iff :
    ofLexemes ts = .ok e ↔ readChoice (8 * (ts.length + 1)) ts = .ok (e, []) := by
  rw [ofLexemes, bind_eq_ok]
  constructor
  · rintro ⟨⟨tree, rest⟩, hread, h⟩
    cases rest with
    | nil => cases h; exact hread
    | cons t rest => cases h
  · exact fun h => ⟨_, h, rfl⟩

/-- What is read is what the grammar derives. -/
theorem ofLexemes_eq_ok_iff_derives : ofLexemes ts = .ok e ↔ Derives (.choice e) ts :=
  ofLexemes_eq_ok_iff.trans (readChoice_eq_ok_iff (Nat.le_refl _))

/-- The lexemes are one expression if and only if the grammar derives them, the tree is the one that
is read, and there is no other. More fuel reads nothing else. -/
theorem ofLexemes_iff_derives (ts : List Lexeme) :
    (∀ e, ofLexemes ts = .ok e ↔ Derives (.choice e) ts) ∧
      (∀ fuel e, 8 * (ts.length + 1) ≤ fuel →
        (readChoice fuel ts = .ok (e, []) ↔ Derives (.choice e) ts)) ∧
      ∀ e e', Derives (.choice e) ts → Derives (.choice e') ts → e = e' := by
  refine ⟨fun e => ofLexemes_eq_ok_iff_derives, fun fuel e hf => readChoice_eq_ok_iff hf,
    fun e e' he he' => ?_⟩
  have hread := ofLexemes_eq_ok_iff_derives.mpr he
  have hread' := ofLexemes_eq_ok_iff_derives.mpr he'
  exact Except.ok.inj (hread.symm.trans hread')

/-- Of `a - -b.if[0] - 2 * c ? f(d, []) : e || $g && !h` there is one reading. -/
theorem ofLexemes_iff_derives_mixed :
    let ts := [ident "a", punct .minus, punct .minus, ident "b", punct .dot, keyword .if_,
      punct .openBracket, int 0, punct .closeBracket, punct .minus, int 2, punct .star, ident "c",
      punct .question, ident "f", punct .openParen, ident "d", punct .comma, punct .openBracket,
      punct .closeBracket, punct .closeParen, punct .colon, ident "e", punct .or, systemIdent "$g",
      punct .and, punct .bang, ident "h"]
    let access : Expression := .item (.field (.variable_ "b") "if") (.literal (.int 0))
    let difference : Expression := .binary .subtract (.variable_ "a") (.unary .negate access)
    let product : Expression := .binary .multiply (.literal (.int 2)) (.variable_ "c")
    let both : Expression := .binary .and (.variable_ "$g") (.unary .not (.variable_ "h"))
    let tree : Expression := .choice (.binary .subtract difference product)
      (.call "f" [.variable_ "d", .list []]) (.binary .or (.variable_ "e") both)
    ofLexemes ts = .ok tree ∧ Derives (.choice tree) ts ∧
      readChoice 500 ts = .ok (tree, []) ∧ ∀ e, Derives (.choice e) ts → e = tree := by
  intro ts access difference product both tree
  have hread : ofLexemes ts = .ok tree := by rfl
  obtain ⟨hiff, hfuel, hunique⟩ := ofLexemes_iff_derives ts
  have hd := (hiff tree).mp hread
  exact ⟨hread, hd, (hfuel 500 tree (by decide)).mpr hd, fun e he => hunique e tree he hd⟩

end PipelineScript.Expression
