import Mathlib
import PipelineScript.Text.Slice

/-! # Steps that may have no result

A program that goes by places in a text, or in a row, has steps that make sense at some places only.
`Guarded` programs check every such step: where it has no result they end in a trap. A fault of what
they work on is no trap. A loop is given a number of turns, and has no result after the last. -/

namespace PipelineScript

/-- What a step without a result wanted to do. -/
inductive Trap where
  /-- To look at a place of a row that it does not have. -/
  | index
  /-- To cut a text inside a character, behind its end, or from behind to front. -/
  | slice
  /-- To subtract a number from a smaller one. -/
  | underflow
  /-- To read digits as a number that they are not. -/
  | literal
  /-- To go on for another turn. -/
  | endless
deriving DecidableEq, Repr

/-- A program on states `σ` that ends with a value, with a fault `ε` or in a trap. -/
abbrev Guarded (σ ε α : Type) := StateT σ (Except (Trap ⊕ ε)) α

namespace Guarded

variable {σ ε α β : Type}

def trap (t : Trap) : Guarded σ ε α := fun _ => .error (.inl t)

def fault (e : ε) : Guarded σ ε α := fun _ => .error (.inr e)

/-- A value that has to be there. -/
def demand (t : Trap) : Option α → Guarded σ ε α
  | some a => pure a
  | none => trap t

def minus (a b : Nat) : Guarded σ ε Nat := if b ≤ a then pure (a - b) else trap .underflow

def at_ (row : List α) (n : Nat) : Guarded σ ε α := demand .index row[n]?

/-- The answer without traps. -/
def sure (x : Except ε α) : Except (Trap ⊕ ε) α := x.mapError .inr

variable {r : Guarded σ ε α} {f : α → Guarded σ ε β} {s s' : σ} {a : α}

theorem bind_of_ok (h : r s = .ok (a, s')) : (r >>= f) s = f a s' := by
  show (r s >>= fun x => f x.1 x.2) = _
  rw [h]
  rfl

theorem bind_of_error {e : Trap ⊕ ε} (h : r s = .error e) : (r >>= f) s = .error e := by
  show (r s >>= fun x => f x.1 x.2) = _
  rw [h]
  rfl

theorem minus_eq {m n : Nat} (h : n ≤ m) : (minus m n : Guarded σ ε Nat) s = .ok (m - n, s) := by
  rw [minus, if_pos h]
  rfl

theorem at_eq {row : List α} {n : Nat} (h : row[n]? = some a) :
    (at_ row n : Guarded σ ε α) s = .ok (a, s) := by
  rw [at_, h]
  rfl

/-! ## Going by places

A program that goes by places does the work of a function that is given what is seen from a place,
and gives what is seen from where it stops. -/

/-- Both have the same fault, or the same result and the same view. The program does not stop before
the place `low`, where it began, or behind `stop`. -/
def Tracks (seen : Nat → σ) (stop low place : Nat) (p : Guarded Nat ε α)
    (x : Except ε (α × σ)) : Prop :=
  match x with
  | .error e => p place = .error (.inr e)
  | .ok (a, c) => ∃ next, low ≤ next ∧ place ≤ next ∧ next ≤ stop ∧ c = seen next ∧
      p place = .ok (a, next)

namespace Tracks

variable {seen : Nat → σ} {stop low place : Nat} {p : Guarded Nat ε α} {x : Except ε (α × σ)}

theorem pure (a : α) (hlow : low ≤ place) (h : place ≤ stop) :
    Tracks seen stop low place (pure a : Guarded Nat ε α) (.ok (a, seen place)) :=
  ⟨place, hlow, Nat.le_refl _, h, rfl, rfl⟩

theorem mono {mid : Nat} (hle : low ≤ mid) (h : Tracks seen stop mid place p x) :
    Tracks seen stop low place p x := by
  unfold Tracks at h ⊢
  split at h
  · exact h
  · obtain ⟨next, hlow, hnext⟩ := h
    exact ⟨next, Nat.le_trans hle hlow, hnext⟩

theorem of_eq {p' : Guarded Nat ε α} (h : Tracks seen stop low place p x)
    (hp : p' place = p place) : Tracks seen stop low place p' x := by
  unfold Tracks at h ⊢
  rw [hp]
  exact h

/-- A first step that is known on both sides. -/
theorem step {γ : Type} {next : Nat} {a : α} {b : γ} {y : Except ε (γ × σ)}
    {f : α → Guarded Nat ε β} {g : γ × σ → Except ε (β × σ)} (hp : p place = .ok (a, next))
    (hy : y = .ok (b, seen next)) (hle : place ≤ next)
    (h : Tracks seen stop low next (f a) (g (b, seen next))) :
    Tracks seen stop low place (p >>= f) (y >>= g) := by
  subst hy
  show Tracks seen stop low place (p >>= f) (g (b, seen next))
  unfold Tracks at h ⊢
  rw [bind_of_ok hp]
  split
  · rename_i e he
    rw [he] at h
    exact h
  · rename_i c d hc
    rw [hc] at h
    obtain ⟨last, hlow, hlast, hrest⟩ := h
    exact ⟨last, hlow, Nat.le_trans hle hlast, hrest⟩

theorem bind {mid : Nat} {f : α → Guarded Nat ε β} {g : α × σ → Except ε (β × σ)}
    (h : Tracks seen stop mid place p x)
    (hf : ∀ a next, mid ≤ next → place ≤ next → next ≤ stop →
      Tracks seen stop low next (f a) (g (a, seen next))) :
    Tracks seen stop low place (p >>= f) (x >>= g) := by
  unfold Tracks at h
  split at h
  · exact bind_of_error h
  · obtain ⟨next, hmid, hnext, hstop, rfl, hp⟩ := h
    exact step hp rfl hnext (hf _ next hmid hnext hstop)

/-- Without the places, both have the same outcome. -/
theorem run_eq (h : Tracks seen stop low place p x) :
    (·.1) <$> p place = sure ((·.1) <$> x) := by
  unfold Tracks at h
  split at h
  · rw [h]
    rfl
  · obtain ⟨next, -, -, -, -, hp⟩ := h
    rw [hp]
    rfl

/-- A program that has a result has moved on as far as it must. -/
theorem le_of_ok {a : α} {next : Nat} (h : Tracks seen stop low place p x)
    (hp : p place = .ok (a, next)) : low ≤ next := by
  unfold Tracks at h
  split at h
  · cases h.symm.trans hp
  · obtain ⟨next, hlow, -, -, -, hp'⟩ := h
    cases hp'.symm.trans hp
    exact hlow

end Tracks

end Guarded

/-! ## Stretches of a text between bytes -/

namespace Text

/-- The text from a byte on, if a character begins there or the text ends. -/
def onward? : Nat → List Char → Option (List Char)
  | 0, cs => some cs
  | _ + 1, [] => none
  | n + 1, c :: cs => if c.utf8Size ≤ n + 1 then onward? (n + 1 - c.utf8Size) cs else none

/-- The text up to a byte, if a character ends there or the text begins. -/
def upTo? : Nat → List Char → Option (List Char)
  | 0, _ => some []
  | _ + 1, [] => none
  | n + 1, c :: cs =>
    if c.utf8Size ≤ n + 1 then (upTo? (n + 1 - c.utf8Size) cs).map (c :: ·) else none

/-- The text between two bytes, the second not before the first. -/
def between? (start stop : Nat) (cs : List Char) : Option (List Char) :=
  if start ≤ stop then (onward? start cs).bind (upTo? (stop - start)) else none

variable {as bs cs : List Char}

theorem onward?_utf8Length (as bs : List Char) : onward? (utf8Length as) (as ++ bs) = some bs := by
  induction as with
  | nil => unfold onward?; rfl
  | cons c as ih =>
    have hpos := Char.utf8Size_pos c
    obtain ⟨n, hn⟩ : ∃ n, utf8Length (c :: as) = n + 1 :=
      ⟨utf8Length (c :: as) - 1, by rw [utf8Length]; omega⟩
    have hle : c.utf8Size ≤ n + 1 := by rw [← hn, utf8Length]; omega
    rw [hn, List.cons_append, onward?, if_pos hle, ← hn, utf8Length, Nat.add_sub_cancel_left, ih]

theorem upTo?_utf8Length (as bs : List Char) : upTo? (utf8Length as) (as ++ bs) = some as := by
  induction as with
  | nil => unfold upTo?; rfl
  | cons c as ih =>
    have hpos := Char.utf8Size_pos c
    obtain ⟨n, hn⟩ : ∃ n, utf8Length (c :: as) = n + 1 :=
      ⟨utf8Length (c :: as) - 1, by rw [utf8Length]; omega⟩
    have hle : c.utf8Size ≤ n + 1 := by rw [← hn, utf8Length]; omega
    rw [hn, List.cons_append, upTo?, if_pos hle, ← hn, utf8Length, Nat.add_sub_cancel_left, ih]
    rfl

theorem between?_middle (as bs cs : List Char) :
    between? (utf8Length as) (utf8Length as + utf8Length bs) (as ++ (bs ++ cs)) = some bs := by
  rw [between?, if_pos (Nat.le_add_right _ _), onward?_utf8Length, Nat.add_sub_cancel_left]
  exact upTo?_utf8Length bs cs

/-- Between two characters, or at an end, the text can be cut at that byte. -/
def Divides (n : Nat) (cs : List Char) : Prop := ∃ before after, cs = before ++ after ∧
  n = utf8Length before

theorem eq_nil_of_utf8Length {cs : List Char} (h : utf8Length cs = 0) : cs = [] := by
  cases cs with
  | nil => rfl
  | cons c cs =>
    have hpos := Char.utf8Size_pos c
    rw [utf8Length] at h
    omega

theorem between?_of_divides {start stop : Nat} (hstart : Divides start cs) (hstop : Divides stop cs)
    (h : start ≤ stop) : between? start stop cs = some (slice start stop cs) := by
  obtain ⟨before, after, hbefore, rfl⟩ := hstart
  obtain ⟨through, rest, hthrough, rfl⟩ := hstop
  obtain ⟨mid, rfl⟩ : before <+: through := by
    obtain hp | ⟨more, rfl⟩ := List.prefix_or_prefix_of_prefix ⟨after, hbefore.symm⟩
      ⟨rest, hthrough.symm⟩
    · exact hp
    · -- the same byte twice
      rw [utf8Length_append] at h
      rw [eq_nil_of_utf8Length (show utf8Length more = 0 by omega), List.append_nil]
  rw [hthrough, utf8Length_append, slice_middle, List.append_assoc, between?_middle]

end Text

end PipelineScript
