import Mathlib
import PipelineScript.Proofs.Guarded.Parser
import PipelineScript.Proofs.Statement.Mirrors

/-! # Parsing by places is reading

A parser follows a reader if it does the same at every place: it stops with the same fault, or it
has the same result and stands where the reader's cursor stands. A parser that follows a reader is
never trapped. -/

namespace PipelineScript.Parsing

open Guarded

variable {text : List Char} {tokens : List Token} {α β : Type} {low place : Nat}

/-- The cursor of a reader at a place. -/
def standing (text : List Char) (tokens : List Token) (place : Nat) : Cursor :=
  ⟨text, (tokens.take place).reverse, tokens.drop place⟩

/-- The parser does at the place what the reader does, and does not stop with a result before the
place `low`. -/
def Follows (text : List Char) (tokens : List Token) (low place : Nat) (p : Parsing α)
    (r : Reading α) : Prop :=
  Tracks (standing text tokens) tokens.length low place p (r (standing text tokens place))

namespace Follows

theorem pure (a : α) (hlow : low ≤ place) (h : place ≤ tokens.length) :
    Follows text tokens low place (pure a) (pure a) := Tracks.pure a hlow h

theorem error {d : Diagnostic} {p : Parsing α} {r : Reading α} (hp : p place = .error (.inr d))
    (hr : r (standing text tokens place) = .error d) : Follows text tokens low place p r := by
  unfold Follows
  rw [hr]
  exact hp

/-- A first step that is known on both sides. -/
theorem step {γ : Type} {next : Nat} {a : α} {b : γ} {p : Parsing α} {r : Reading γ}
    {f : α → Parsing β} {g : γ → Reading β} (hp : p place = .ok (a, next))
    (hr : r (standing text tokens place) = .ok (b, standing text tokens next))
    (hle : place ≤ next) (h : Follows text tokens low next (f a) (g b)) :
    Follows text tokens low place (p >>= f) (r >>= g) := Tracks.step hp hr hle h

theorem bind {mid : Nat} {p : Parsing α} {r : Reading α} {f : α → Parsing β} {g : α → Reading β}
    (h : Follows text tokens mid place p r)
    (hf : ∀ a next, mid ≤ next → place ≤ next → next ≤ tokens.length →
      Follows text tokens low next (f a) (g a)) :
    Follows text tokens low place (p >>= f) (r >>= g) := Tracks.bind h hf

theorem of_eq {p p' : Parsing α} {r r' : Reading α} (h : Follows text tokens low place p r)
    (hp : p' place = p place)
    (hr : r' (standing text tokens place) = r (standing text tokens place)) :
    Follows text tokens low place p' r' := by
  unfold Follows at h ⊢
  rw [hr]
  exact Tracks.of_eq h hp

theorem mono {mid : Nat} {p : Parsing α} {r : Reading α} (hle : low ≤ mid)
    (h : Follows text tokens mid place p r) : Follows text tokens low place p r := Tracks.mono hle h

theorem map {p : Parsing α} {r : Reading α} (g : α → β) (h : Follows text tokens low place p r) :
    Follows text tokens low place (g <$> p) (g <$> r) := by
  rw [map_eq_pure_bind, map_eq_pure_bind]
  exact h.bind fun a _ hlow _ hnext => .pure (g a) hlow hnext

/-- Whichever way both take, they go on in the same way. -/
theorem join {c : Prop} [Decidable c] {mid : Nat} {p q : Parsing α} {r s : Reading α}
    {f : α → Parsing β} {g : α → Reading β} (h : Follows text tokens mid place p r)
    (h' : Follows text tokens mid place q s)
    (hf : ∀ a next, mid ≤ next → place ≤ next → next ≤ tokens.length →
      Follows text tokens low next (f a) (g a)) :
    Follows text tokens low place (if c then p >>= f else q >>= f)
      (if c then r >>= g else s >>= g) := by
  split
  · exact h.bind hf
  · exact h'.bind hf

/-- A reading with a turn for every token ahead. At the end a turn more makes no difference. -/
theorem turn {fuel : Nat} {p : Parsing α} {r : Nat → Reading α} (h : place ≤ tokens.length)
    (hfuel : tokens.length - place ≤ fuel)
    (hend : ∀ passed, r 0 ⟨text, passed, []⟩ = r 1 ⟨text, passed, []⟩)
    (hstep : ∀ fuel, tokens.length - place ≤ fuel + 1 →
      Follows text tokens low place p (r (fuel + 1))) :
    Follows text tokens low place p (r fuel) := by
  cases fuel with
  | zero =>
    obtain rfl : place = tokens.length := by omega
    refine (hstep 0 (by omega)).of_eq rfl ?_
    rw [standing, List.drop_length]
    exact hend _
  | succ fuel => exact hstep fuel hfuel

end Follows

/-! ## Steps -/

theorem head?_standing : (standing text tokens place).head? = tokens[place]? := by
  rw [Cursor.head?, standing, List.head?_drop]

theorem length_ahead : (standing text tokens place).ahead.length = tokens.length - place :=
  List.length_drop

theorem advance_standing (n : Nat) :
    (standing text tokens place).advance n = standing text tokens (place + n) := by
  rw [Cursor.advance, standing, standing, List.take_add, List.reverse_append, List.drop_drop]

theorem lt_of_token {t : Token} (h : tokens[place]? = some t) : place < tokens.length :=
  (List.getElem?_eq_some_iff.mp h).1

theorem line_standing : line tokens place =
    .ok ((standing text tokens place).line, place) := by
  show Except.ok ((((tokens[place + 0]?).or tokens.getLast?).map Token.line).getD 1, place) = _
  rw [Cursor.line, head?_standing, Nat.add_zero]
  cases ht : tokens[place]? with
  | some t => rfl
  | none =>
    have hend : tokens.take place = tokens :=
      List.take_of_length_le (List.getElem?_eq_none_iff.mp ht)
    rw [standing, hend, List.head?_reverse]

/-- Away from the place itself, tokens are shown as they are. -/
theorem map_shownFrom (row : List Token) (start : Nat)
    (h : place < start ∨ start + row.length ≤ place) :
    (row.zipIdx start).map (shownFrom place) = row.map Token.shown := by
  induction row generalizing start with
  | nil => rfl
  | cons t row ih =>
    rw [List.length_cons] at h
    have ht : shownFrom place (t, start) = t.shown := if_neg (by show start ≠ place; omega)
    rw [List.zipIdx_cons, List.map_cons, List.map_cons, ht, ih (start + 1) (by omega)]

theorem around_append (behind onward : List Token) :
    around (behind ++ onward) behind.length = behind.zipIdx.drop (behind.length - 8) ++
      (onward.zipIdx behind.length).take (20 - min 8 behind.length) := by
  have hlen : behind.length - 8 + 20 = behind.zipIdx.length + (20 - min 8 behind.length) := by
    rw [List.length_zipIdx]
    omega
  have htake : (behind ++ onward).zipIdx.take
      (min (behind.length - 8 + 20) (behind ++ onward).length) =
        (behind ++ onward).zipIdx.take (behind.length - 8 + 20) := by
    rw [List.take_eq_take_iff, List.length_zipIdx]
    omega
  rw [around, htake, hlen, List.zipIdx_append, List.take_length_add_append, Nat.zero_add,
    List.drop_append_of_le_length (by rw [List.length_zipIdx]; omega)]

theorem context_standing (h : place ≤ tokens.length) :
    context tokens place = (standing text tokens place).surroundings := by
  obtain ⟨behind, onward, rfl, rfl⟩ :
      ∃ behind onward, tokens = behind ++ onward ∧ place = behind.length :=
    ⟨tokens.take place, tokens.drop place, (List.take_append_drop ..).symm, by simp [h]⟩
  have hcursor : standing text (behind ++ onward) behind.length =
      ⟨text, behind.reverse, onward⟩ := by
    simp [standing]
  have hbehind : (behind.reverse.take 8).reverse = behind.drop (behind.length - 8) := by
    rw [List.reverse_take, List.reverse_reverse, List.length_reverse]
  have hlen : ((behind.map Token.shown).drop (behind.length - 8)).length =
      min 8 behind.length := by
    rw [List.length_drop, List.length_map]
    omega
  have hcount : 20 - min 8 behind.length = 19 - min 8 behind.length + 1 := by omega
  rw [context, around_append, List.map_append, List.map_drop, map_shownFrom behind 0 (by omega),
    hcursor]
  unfold Cursor.surroundings
  dsimp only
  rw [hbehind, List.map_drop, List.append_assoc, hlen, hcount]
  congr 2
  cases onward with
  | nil => simp
  | cons t onward =>
    rw [List.zipIdx_cons, List.take_succ_cons, List.take_succ_cons, List.map_cons, List.map_cons,
      List.map_take, List.map_take, map_shownFrom onward _ (by omega), if_neg (by simp),
      List.append_nil]
    exact congrArg (· :: _) (if_pos rfl)

theorem fail_eq (text : List Char) (h : place ≤ tokens.length) (cause : StatementCause) :
    (fail tokens cause : Parsing α) place =
      .error (.inr ((standing text tokens place).diagnose cause)) := by
  unfold fail
  rw [bind_of_ok line_standing, Cursor.diagnose, ← context_standing h]
  rfl

theorem fail_follows (h : place ≤ tokens.length) (cause : StatementCause) :
    Follows text tokens low place (fail tokens cause : Parsing α) (Reading.fail cause) :=
  .error (fail_eq text h cause) rfl

theorem line_follows (h : place ≤ tokens.length) :
    Follows text tokens place place (line tokens) Reading.line :=
  ⟨place, Nat.le_refl _, Nat.le_refl _, h, rfl, line_standing⟩

/-- A fault if a condition holds. -/
theorem Follows.failIf {c : Prop} [Decidable c] (h : place ≤ tokens.length) (cause : StatementCause)
    {f : Unit → Parsing α} {g : Unit → Reading α}
    (hf : Follows text tokens low place (f ()) (g ())) :
    Follows text tokens low place (if c then fail tokens cause >>= f else f ())
      (if c then Reading.fail cause >>= g else g ()) := by
  split
  · exact .error (bind_of_error (fail_eq text h cause)) rfl
  · exact hf

theorem Follows.failUnless {c : Prop} [Decidable c] (h : place ≤ tokens.length)
    (cause : StatementCause) {f : Unit → Parsing α} {g : Unit → Reading α}
    (hf : Follows text tokens low place (f ()) (g ())) :
    Follows text tokens low place (if c then f () else fail tokens cause >>= f)
      (if c then g () else Reading.fail cause >>= g) := by
  split
  · exact hf
  · exact .error (bind_of_error (fail_eq text h cause)) rfl

theorem get_eq : (get : Parsing Nat) place = .ok (place, place) := rfl

theorem peek_eq : peek tokens place = .ok (tokens[place + 0]?, place) := rfl

/-- Both look at what is there. -/
theorem peek_bind {f : Option Token → Parsing α} {r : Reading α}
    (h : Follows text tokens low place (f tokens[place]?) r) :
    Follows text tokens low place (peek tokens >>= f) r := h.of_eq rfl rfl

theorem get_bind {p : Parsing α} {g : Cursor → Reading α}
    (h : Follows text tokens low place p (g (standing text tokens place))) :
    Follows text tokens low place p (get >>= g) := h.of_eq rfl rfl

theorem place_bind {f : Nat → Parsing α} {r : Reading α}
    (h : Follows text tokens low place (f place) r) :
    Follows text tokens low place (get >>= f) r := h.of_eq rfl rfl

theorem line_bind {f : Nat → Parsing α} {r : Reading α}
    (h : Follows text tokens low place (f (standing text tokens place).line) r) :
    Follows text tokens low place (line tokens >>= f) r := h.of_eq (bind_of_ok line_standing) rfl

/-- A step of one token. -/
theorem move_bind {f : Unit → Parsing α} {g : Unit → Reading α}
    (hf : Follows text tokens low (place + 1) (f ()) (g ())) :
    Follows text tokens low place (move >>= f) (Reading.advance 1 >>= g) :=
  .step rfl (congrArg (fun c => Except.ok ((), c)) (advance_standing 1)) (Nat.le_succ _) hf

theorem advance_eq {t : Token} (ht : tokens[place]? = some t) :
    advance tokens place = .ok (some t, place + 1) := by
  unfold advance
  rw [bind_of_ok peek_eq, Nat.add_zero, ht]
  rfl

theorem advance_bind {f : Option Token → Parsing α} {g : Unit → Reading α} {t : Token}
    (ht : tokens[place]? = some t) (hf : Follows text tokens low (place + 1) (f (some t)) (g ())) :
    Follows text tokens low place (advance tokens >>= f) (Reading.advance 1 >>= g) :=
  .step (advance_eq ht) (congrArg (fun c => Except.ok ((), c)) (advance_standing 1))
    (Nat.le_succ _) hf

theorem acceptIf_bind {q : Token → Bool} {r : Reading Bool} {f : Bool → Parsing α}
    {g : Bool → Reading α}
    (hr : ∀ c : Cursor, r c = if c.head?.any q then .ok (true, c.advance 1) else .ok (false, c))
    (hyes : place < tokens.length → tokens[place]?.any q = true →
      Follows text tokens low (place + 1) (f true) (g true))
    (hno : tokens[place]?.any q = false → Follows text tokens low place (f false) (g false)) :
    Follows text tokens low place (acceptIf tokens q >>= f) (r >>= g) := by
  have hr := hr (standing text tokens place)
  have hp : acceptIf tokens q place =
      if tokens[place]?.any q then .ok (true, place + 1) else .ok (false, place) := by
    show (if tokens[place]?.any q then _ else _ : Parsing Bool) place = _
    cases tokens[place]?.any q <;> rfl
  rw [head?_standing, advance_standing] at hr
  cases hq : tokens[place]?.any q with
  | true =>
    obtain ⟨t, ht, -⟩ := (Option.any_eq_true _ _).mp hq
    rw [hq, if_pos rfl] at hr hp
    exact .step hp hr (Nat.le_succ _) (hyes (lt_of_token ht) hq)
  | false =>
    rw [hq, if_neg Bool.false_ne_true] at hr hp
    exact .step hp hr (Nat.le_refl _) (hno hq)

theorem accept_bind {p : Punct} {f : Bool → Parsing α} {g : Bool → Reading α}
    (hyes : place < tokens.length → Follows text tokens low (place + 1) (f true) (g true))
    (hno : Follows text tokens low place (f false) (g false)) :
    Follows text tokens low place (accept tokens p >>= f) (Reading.accept p >>= g) := by
  refine acceptIf_bind (fun c => ?_) (fun h _ => hyes h) fun _ => hno
  show (if c.isAtMark p then _ else _ : Reading Bool) c = _
  unfold Cursor.isAtMark
  cases c.head?.any fun t => t.isPunct p <;> rfl

theorem acceptKeyword_bind {k : Keyword} {f : Bool → Parsing α} {g : Bool → Reading α}
    (hyes : place < tokens.length → Follows text tokens low (place + 1) (f true) (g true))
    (hno : Follows text tokens low place (f false) (g false)) :
    Follows text tokens low place (acceptKeyword tokens k >>= f)
      (Reading.acceptKeyword k >>= g) := by
  refine acceptIf_bind (fun c => ?_) (fun h _ => hyes h) fun _ => hno
  show (if c.isAtKeyword k then _ else _ : Reading Bool) c = _
  unfold Cursor.isAtKeyword
  cases c.head?.any fun t => t.isKeyword k <;> rfl

theorem accept_follows (h : place ≤ tokens.length) (p : Punct) :
    Follows text tokens place place (accept tokens p) (Reading.accept p) := by
  rw [← bind_pure (accept tokens p), ← bind_pure (Reading.accept p)]
  exact accept_bind (fun hlt => .pure _ (Nat.le_succ _) hlt) (.pure _ (Nat.le_refl _) h)

theorem acceptKeyword_follows (h : place ≤ tokens.length) (k : Keyword) :
    Follows text tokens place place (acceptKeyword tokens k) (Reading.acceptKeyword k) := by
  rw [← bind_pure (acceptKeyword tokens k), ← bind_pure (Reading.acceptKeyword k)]
  exact acceptKeyword_bind (fun hlt => .pure _ (Nat.le_succ _) hlt) (.pure _ (Nat.le_refl _) h)

theorem mark_follows (h : place ≤ tokens.length) (p : Punct) (what : String) :
    Follows text tokens (place + 1) place (mark tokens p what) (Reading.mark p what) := by
  unfold mark Reading.mark
  refine accept_bind (fun hlt => ?_) ?_
  · exact .pure () (Nat.le_refl _) hlt
  · exact fail_follows h _

theorem keyword_follows (h : place ≤ tokens.length) (k : Keyword) :
    Follows text tokens (place + 1) place (keyword tokens k) (Reading.keyword k) := by
  unfold keyword Reading.keyword
  refine acceptKeyword_bind (fun hlt => ?_) ?_
  · exact .pure () (Nat.le_refl _) hlt
  · exact fail_follows h _

theorem name_follows (h : place ≤ tokens.length) (what : String) :
    Follows text tokens (place + 1) place (name tokens what) (Reading.name what) := by
  unfold name Reading.name
  refine peek_bind (get_bind ?_)
  rw [head?_standing]
  cases ht : tokens[place]? with
  | none => exact fail_follows h _
  | some t =>
    have hlt := lt_of_token ht
    obtain ⟨lexeme, _, _, _⟩ := t
    cases lexeme with
    | ident name => exact move_bind (.pure name (Nat.le_refl _) hlt)
    | systemIdent | keyword => exact fail_follows h _
    | _ => exact fail_follows h _

/-! ## Loops over tokens -/

/-- There is a turn for every token ahead, and one to spare. -/
theorem lt_turns (place : Nat) : tokens.length - place < turns tokens := by
  rw [turns]
  omega

theorem getElem?_of_drop {ahead : List Token} (h : tokens.drop place = ahead) (n : Nat) :
    tokens[place + n]? = ahead[n]? := by
  rw [← h, List.getElem?_drop]

theorem lt_of_drop {t : Token} {rest : List Token} (h : tokens.drop place = t :: rest) :
    place < tokens.length := by
  refine Nat.lt_of_not_le fun hle => ?_
  rw [List.drop_eq_nil_of_le hle] at h
  cases h

theorem drop_succ {t : Token} {rest : List Token} (h : tokens.drop place = t :: rest) :
    tokens.drop (place + 1) = rest := by
  rw [← List.drop_drop, h]
  rfl

theorem passWhile_eq (p : Token → Bool) {turns : Nat} (hturns : tokens.length - place < turns) :
    passWhile tokens p turns place =
      .ok ((), place + ((tokens.drop place).takeWhile p).length) := by
  induction turns generalizing place with
  | zero => exact absurd hturns (Nat.not_lt_zero _)
  | succ turns ih =>
    show (if tokens[place + 0]?.any p then _ else _ : Parsing Unit) place = _
    cases h : tokens.drop place with
    | nil =>
      rw [getElem?_of_drop h]
      rfl
    | cons t rest =>
      have hlt := lt_of_drop h
      rw [getElem?_of_drop h, List.takeWhile_cons]
      show (if p t = true then _ else _ : Parsing Unit) place = _
      by_cases hp : p t = true
      · rw [if_pos hp, if_pos hp]
        refine (ih (show tokens.length - (place + 1) < turns by omega)).trans ?_
        rw [drop_succ h, List.length_cons, Nat.add_assoc, Nat.add_comm 1]
      · rw [if_neg hp, if_neg hp]
        rfl

theorem skipWhile_follows (h : place ≤ tokens.length) (p : Token → Bool) :
    Follows text tokens place place (skipWhile tokens p) (Reading.skipWhile p) := by
  have hlen : ((tokens.drop place).takeWhile p).length ≤ tokens.length - place := by
    rw [← List.length_drop]
    exact (List.takeWhile_prefix p).length_le
  exact ⟨place + ((tokens.drop place).takeWhile p).length, by omega, by omega, by omega,
    advance_standing _, passWhile_eq p (lt_turns place)⟩

theorem exists_name {t : Token} (h : isName t = true) : ∃ name, t.lexeme = .ident name := by
  unfold isName at h
  split at h
  · exact ⟨_, ‹_›⟩
  · cases h

theorem name_eq {t : Token} {name : String} (ht : tokens[place]? = some t)
    (hname : t.lexeme = .ident name) (what : String) :
    Parsing.name tokens what place = .ok (name, place + 1) := by
  unfold Parsing.name
  rw [bind_of_ok peek_eq, Nat.add_zero, ht, Option.map_some, hname]
  rfl

/-- A dotted name goes on with a dot and a name. -/
def goesOn (ahead : List Token) : Prop :=
  (ahead[0]?.any fun t => t.isPunct .dot) = true ∧ ahead[1]?.any isName = true

theorem dottedParts_of_goesOn {dot t : Token} {rest : List Token} {name : String}
    (h : goesOn (dot :: t :: rest)) (hname : t.lexeme = .ident name) :
    Token.dottedParts (dot :: t :: rest) = name :: Token.dottedParts rest := by
  obtain ⟨_, _, _, _⟩ := t
  cases hname
  exact if_pos h.1

theorem dottedParts_of_not {ahead : List Token} (h : ¬ goesOn ahead) :
    Token.dottedParts ahead = [] := by
  unfold Token.dottedParts
  split
  · exact if_neg fun hdot => h ⟨hdot, rfl⟩
  · rfl

/-- A dot goes on only before a name, which is there then. -/
theorem furtherParts_eq (what : String) {turns : Nat} (hturns : tokens.length - place < turns) :
    furtherParts tokens what turns place = .ok (Token.dottedParts (tokens.drop place),
      place + 2 * (Token.dottedParts (tokens.drop place)).length) := by
  induction turns generalizing place with
  | zero => exact absurd hturns (Nat.not_lt_zero _)
  | succ turns ih =>
    have hnext : goesOn (tokens.drop place) ↔ (tokens[place + 0]?.any fun t => t.isPunct .dot) ∧
        tokens[place + 1]?.any isName := by
      rw [goesOn, List.getElem?_drop, List.getElem?_drop]
    show (if (tokens[place + 0]?.any fun t => t.isPunct .dot) ∧ tokens[place + 1]?.any isName
      then _ else _ : Parsing (List String)) place = _
    by_cases hmore : goesOn (tokens.drop place)
    · obtain ⟨t, ht, hname⟩ := (Option.any_eq_true _ _).mp hmore.2
      obtain ⟨name, hlexeme⟩ := exists_name hname
      obtain ⟨dot, rest, h⟩ : ∃ dot rest, tokens.drop place = dot :: t :: rest := by
        cases h : tokens.drop place with
        | nil => simp [h] at ht
        | cons dot rest =>
          obtain ⟨rest, rfl⟩ := List.head?_eq_some_iff.mp
            (show rest.head? = some t by rw [List.head?_eq_getElem?]; simpa [h] using ht)
          exact ⟨dot, rest, rfl⟩
      have hlt := lt_of_drop h
      have hrest := drop_succ h
      have hpart := name_eq (getElem?_of_drop hrest 0) hlexeme what
      have hfurther := ih (show tokens.length - (place + 1 + 1) < turns by omega)
      rw [drop_succ hrest] at hfurther
      rw [if_pos (hnext.mp hmore), h, dottedParts_of_goesOn (h ▸ hmore) hlexeme]
      show (Parsing.name tokens what >>= fun part => furtherParts tokens what turns >>= fun more =>
        pure (part :: more)) (place + 1) = _
      have hplace : place + 2 * ((Token.dottedParts rest).length + 1) =
          place + 1 + 1 + 2 * (Token.dottedParts rest).length := by omega
      rw [bind_of_ok hpart, bind_of_ok hfurther, List.length_cons, hplace]
      rfl
    · rw [if_neg (mt hnext.mpr hmore), dottedParts_of_not hmore]
      rfl

theorem dottedName_follows (h : place ≤ tokens.length) (what : String) :
    Follows text tokens (place + 1) place (dottedName tokens what) (Reading.dottedName what) := by
  unfold dottedName Reading.dottedName
  refine (name_follows h what).bind fun first next hlow _ hnext => get_bind ?_
  have hlen := Token.length_dottedParts (tokens.drop next)
  rw [List.length_drop] at hlen
  exact ⟨next + 2 * (Token.dottedParts (tokens.drop next)).length, by omega, by omega, by omega,
    advance_standing _, bind_of_ok (furtherParts_eq what (lt_turns next))⟩

/-! ## Ends of statements -/

theorem isEnd_standing : isEnd tokens[place]? = (standing text tokens place).isAtStatementEnd := by
  rw [Cursor.isAtStatementEnd, head?_standing]
  rfl

theorem atEnd_bind {f : Bool → Parsing α} {r : Reading α}
    (h : Follows text tokens low place (f (standing text tokens place).isAtStatementEnd) r) :
    Follows text tokens low place (atEnd tokens >>= f) r := by
  rw [← isEnd_standing] at h
  exact h.of_eq rfl rfl

theorem endOf_follows (h : place ≤ tokens.length) (statement : String) :
    Follows text tokens place place (endOf tokens statement) (Reading.endOf statement) := by
  cases hend : isEnd tokens[place]? with
  | true =>
    refine (Follows.pure () (Nat.le_refl _) h).of_eq ?_ ?_
    · show (if isEnd tokens[place]? then _ else _ : Parsing Unit) place = _
      rw [hend]
      rfl
    · show (if Cursor.isAtStatementEnd _ then _ else _ : Reading Unit) _ = _
      rw [← isEnd_standing, hend]
      rfl
  | false =>
    refine (fail_follows h (.trailing ((tokens[place]?.map Token.shown).getD "") statement)).of_eq
      ?_ ?_
    · show (if isEnd tokens[place]? then _ else _ : Parsing Unit) place = _
      rw [hend]
      rfl
    · show (if Cursor.isAtStatementEnd _ then _ else
        Reading.fail (.trailing (((Cursor.head? _).map Token.shown).getD "") statement) :
          Reading Unit) _ = _
      rw [← isEnd_standing, hend, head?_standing]
      rfl

end PipelineScript.Parsing
