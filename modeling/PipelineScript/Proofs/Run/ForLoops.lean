import PipelineScript.Proofs.Run.Frame
import PipelineScript.Proofs.Run.OrderedMaps

/-! # What a `for` loop visits

A `for` loop is driven by a state that is asked for the next item in a scope which is there before
the item is. What it comes to is simpler: its iterable is evaluated once, the items are a list from
then on, and its body runs for one after another. Main statement: `runStatement_forLoop`. -/

namespace PipelineScript

/-! ## Sequences -/

/-- An iterable whose expressions have been evaluated. -/
inductive Sequence where
  | range (start stop : Int64) (inclusive : Bool)
  | each (v : Value)

/-- The items of a sequence in the order in which a loop is to visit them. -/
inductive Sequence.Visits : Sequence → List Value → Prop
  | range {start stop : Int64} {inclusive : Bool} {is : List Int64}
      (hascending : is.Pairwise (· < ·))
      (hmem : ∀ i, i ∈ is ↔ start ≤ i ∧ (i < stop ∨ inclusive = true ∧ i = stop)) :
      Visits (.range start stop inclusive) (is.map .int)
  | list (vs : List Value) : Visits (.each (.list vs)) vs
  | map {entries : Table Value} {keys : List String} (hascending : keys.Pairwise (· < ·))
      (hmem : ∀ key, key ∈ keys ↔ Table.has entries key) :
      Visits (.each (.map entries)) (keys.map .str)
  | str (s : String) : Visits (.each (.str s)) (s.toList.map fun c => .str c.toString)
  | null : Visits (.each .null) []

namespace Items

/-- The items, all written out. -/
def values : Items → List Value
  | listed vs => vs
  | counted next left => (List.range left).map fun k : Nat => .int (Int64.ofInt (next + k))

@[simp] theorem length_values (items : Items) : items.values.length = items.size := by
  cases items <;> simp [values, size]

theorem next?_of_values_eq_nil {items : Items} (h : items.values = []) : items.next? = none := by
  rw [next?_eq_none_iff, ← length_values, h]
  rfl

theorem next?_of_values_eq_cons {items : Items} {v : Value} {rest : List Value}
    (h : items.values = v :: rest) :
    ∃ items', items.next? = some (v, items') ∧ items'.values = rest := by
  cases items with
  | listed vs =>
    cases h
    exact ⟨listed rest, rfl, rfl⟩
  | counted next left =>
    cases left with
    | zero => cases h
    | succ left =>
      rw [values, List.range_succ_eq_map, List.map_cons, List.map_map] at h
      obtain ⟨rfl, rfl⟩ := List.cons.inj h
      refine ⟨counted (next + 1) left, by simp [next?], ?_⟩
      refine List.map_congr_left fun k _ => ?_
      simp only [Function.comp_apply, Nat.succ_eq_add_one]
      congr 2
      omega

end Items

namespace Sequence

/-- The integers of a range, counted from its first one on. -/
theorem visits_ofRange (start stop : Int64) (inclusive : Bool) :
    Visits (.range start stop inclusive) (Items.ofRange start stop inclusive).values := by
  let count := (stop.toInt - start.toInt + (if inclusive then 1 else 0)).toNat
  let nth (k : Nat) : Int64 := Int64.ofInt (start.toInt + k)
  have hcount (k : Nat) : k < count ↔ start.toInt + k < stop.toInt ∨
      inclusive = true ∧ start.toInt + k = stop.toInt := by
    cases inclusive <;> simp [count] <;> omega
  -- no integer of the range goes beyond the second bound, so none wraps around
  have hnth (k : Nat) (hk : k < count) : (nth k).toInt = start.toInt + k := by
    have hlow := start.le_toInt
    have hhigh := stop.toInt_lt
    have hstop := (hcount k).mp hk
    exact Int64.toInt_ofInt_of_le (by omega) (by omega)
  have hvalues : (Items.ofRange start stop inclusive).values =
      ((List.range count).map nth).map .int := by
    rw [List.map_map]
    rfl
  rw [hvalues]
  refine .range ?_ fun i => ?_
  · refine List.pairwise_map.mpr (List.pairwise_lt_range.imp_of_mem fun {j k} hj hk hlt => ?_)
    rw [Int64.lt_iff_toInt_lt, hnth j (List.mem_range.mp hj), hnth k (List.mem_range.mp hk)]
    omega
  · simp only [List.mem_map, List.mem_range, Int64.le_iff_toInt_le, Int64.lt_iff_toInt_lt,
      ← Int64.toInt_inj]
    constructor
    · rintro ⟨k, hk, hi⟩
      rw [← hi, hnth k hk]
      exact ⟨Int.le_add_of_nonneg_right k.cast_nonneg, (hcount k).mp hk⟩
    · rintro ⟨hle, hstop⟩
      obtain ⟨k, hk⟩ := Int.le.dest hle
      rw [← hk] at hstop ⊢
      have hlt := (hcount k).mpr hstop
      exact ⟨k, hlt, hnth k hlt⟩

theorem visits_keys {entries : Table Value} (h : entries.Ordered) :
    Visits (.each (.map entries)) ((Table.keys entries).map .str) :=
  .map (List.pairwise_map.mpr h) fun _ => Table.mem_keys_iff

/-- The items of a sequence are determined. -/
theorem Visits.unique {seq : Sequence} {items other : List Value} (h : seq.Visits items)
    (hother : seq.Visits other) : other = items := by
  cases h with
  | range hascending hmem =>
    cases hother with
    | range hascending' hmem' =>
      exact congrArg _ (hascending'.eq_of_mem_iff hascending fun i =>
        (hmem' i).trans (hmem i).symm)
  | map hascending hmem =>
    cases hother with
    | map hascending' hmem' =>
      exact congrArg _ (hascending'.eq_of_mem_iff hascending fun key =>
        (hmem' key).trans (hmem key).symm)
  | list => cases hother; rfl
  | str => cases hother; rfl
  | null => cases hother; rfl

/-- A value with ordered maps, or bounds. -/
def Ordered : Sequence → Prop
  | each v => v.Ordered
  | range .. => True

end Sequence

namespace Run

variable {α β : Type}

/-! ## The loop as a fold -/

/-- The expressions of an iterable, each evaluated once. -/
def sequenceOf (line : Nat) : Iterable → Run Sequence
  | .range start stop inclusive => do
    let first ← rangeBound start line
    let last ← rangeBound stop line
    return .range first last inclusive
  | .each e => do
    let v ← eval e line
    return .each v

/-- A turn of a loop: in a new scope, the variable is declared as the item, and the body runs. -/
def turn (variable_ : String) (body : Run Flow) (v : Value) : Run Flow :=
  inScope .block do
    modifyContext fun c => c.declare variable_ v none
    body

/-- A turn for one item after another, up to the first that stops the run or ends otherwise than
normally or with `continue`. The clock is looked at before each item and at the end. -/
def visit (look : Run Unit) (turn : Value → Run Flow) : List Value → Run Flow
  | [] => do
    look
    return .normal
  | v :: rest => do
    look
    match ← turn v with
    | .normal | .continued => visit look turn rest
    | flow => return flow

/-- How a loop ends whose turns have ended with a flow. -/
def endOfLoop (outermost : Bool) : Flow → Flow
  | .broken => .normal
  | .brokenAll => if outermost then .normal else .brokenAll
  | flow => flow

/-- How a step ends and the machine that it leaves, whether somebody watches it or not. -/
def ending (x : Run α) (m : Machine) : Except Halt α × Machine :=
  ((x.run m).1, (x.run m).2.unwatched)

/-! ## The items of a sequence -/

/-- What a loop walks over, once the expressions have their values. -/
def itemsOfSequence (line : Nat) : Sequence → Run Items
  | .range start stop inclusive => return .ofRange start stop inclusive
  | .each v =>
    match Items.ofValue? v with
    | some items => return items
    | none => fail line (.notIterable v.typeName)

theorem itemsOf_eq (line : Nat) (it : Iterable) :
    itemsOf line it = sequenceOf line it >>= itemsOfSequence line := by
  cases it with
  | range start stop inclusive =>
    simp only [itemsOf, sequenceOf, bind_assoc, pure_bind, itemsOfSequence]
  | each e =>
    simp only [itemsOf, sequenceOf, bind_assoc, pure_bind]
    rfl

theorem ordered_of_sequenceOf {line : Nat} {it : Iterable} {m m' : Machine} {seq : Sequence}
    (hm : m.Ordered) (h : (sequenceOf line it).run m = (.ok seq, m')) : seq.Ordered := by
  cases it with
  | range start stop inclusive =>
    simp only [sequenceOf, run_bind] at h
    split at h
    · split at h <;> cases h
      trivial
    · cases h
  | each e =>
    simp only [sequenceOf, run_bind] at h
    split at h <;> cases h
    exact ordered_of_eval hm ‹_›

theorem quiet_sequenceOf (line : Nat) (it : Iterable) : Quiet (sequenceOf line it) := by
  cases it with
  | range start stop inclusive =>
    exact (quiet_rangeBound start line).bind fun _ =>
      (quiet_rangeBound stop line).bind fun _ => .pure _
  | each e => exact (quiet_eval e line).bind fun _ => .pure _

theorem len_ofValue? {v : Value} {items : Items} (h : Items.ofValue? v = some items) :
    Builtin.apply .len [v] = .ok (.int (Int64.ofNat items.values.length)) := by
  cases v <;> cases h <;>
    simp [Builtin.apply, Builtin.applyOne, Builtin.size, Value.countText, Value.countList,
      Items.size, Table.keys, String.length_toList]

/-- A loop walks over the items of the sequence, as many as `len` gives; a value that has none, and
no other sequence, stops the run. -/
theorem itemsOfSequence_cases (line : Nat) {seq : Sequence} (hseq : seq.Ordered) :
    (∃ items : Items, itemsOfSequence line seq = pure items ∧ seq.Visits items.values ∧
      ∀ v, seq = .each v →
        Builtin.apply .len [v] = .ok (.int (Int64.ofNat items.values.length))) ∨
    ∃ v, seq = .each v ∧ (∀ items, ¬ seq.Visits items) ∧
      itemsOfSequence line seq = fail line (.notIterable v.typeName) := by
  cases seq with
  | range start stop inclusive =>
    exact .inl ⟨_, rfl, Sequence.visits_ofRange start stop inclusive, by rintro v ⟨⟩⟩
  | each v =>
    cases v
    case null => exact .inl ⟨_, rfl, .null, by rintro _ ⟨⟩; exact len_ofValue? rfl⟩
    case str s => exact .inl ⟨_, rfl, .str s, by rintro _ ⟨⟩; exact len_ofValue? rfl⟩
    case list vs => exact .inl ⟨_, rfl, .list vs, by rintro _ ⟨⟩; exact len_ofValue? rfl⟩
    case map entries =>
      have hvisits := Sequence.visits_keys (Value.Ordered.keys hseq)
      exact .inl ⟨_, rfl, hvisits, by rintro _ ⟨⟩; exact len_ofValue? rfl⟩
    all_goals exact .inr ⟨_, rfl, by rintro _ ⟨⟩, rfl⟩

/-! ## Steps that end alike -/

section

variable {x y : Run α} {m : Machine}

theorem ending_bind_congr {f g : α → Run β}
    (h : ∀ a m', x.run m = (.ok a, m') → ending (f a) m' = ending (g a) m') :
    ending (x >>= f) m = ending (x >>= g) m := by
  unfold ending
  rw [run_bind, run_bind]
  rcases hx : x.run m with ⟨halt | a, m'⟩
  · rfl
  · exact h a m' hx

theorem ending_bind_of_ok {f : α → Run β} {a : α} {m' : Machine} (h : x.run m = (.ok a, m')) :
    ending (x >>= f) m = ending (f a) m' := by
  unfold ending
  rw [run_bind, h]

/-- What is done after a step looks at nothing but contexts. -/
theorem ending_within_congr {enter : Context → Context} {leave : Context → Context → Context}
    (h : ending x (m.moveTo (enter m.context)) = ending y (m.moveTo (enter m.context))) :
    ending (within enter leave x) m = ending (within enter leave y) m := by
  obtain ⟨hresult, hmachine⟩ := Prod.mk.inj h
  have hcontext := congrArg Machine.context hmachine
  unfold ending
  rw [run_within, run_within]
  refine Prod.ext hresult ?_
  show Machine.moveTo (Machine.unwatched _) _ = Machine.moveTo (Machine.unwatched _) _
  rw [hmachine]
  exact congrArg (fun c => Machine.moveTo _ (leave m.context c)) hcontext

theorem run_map (f : α → β) : (f <$> x).run m = ((x.run m).1.map f, (x.run m).2) := by
  rw [map_eq_pure_bind, run_bind]
  rcases x.run m with ⟨_ | a, m'⟩ <;> rfl

theorem within_map (enter : Context → Context) (leave : Context → Context → Context)
    (f : α → β) : within enter leave (f <$> x) = f <$> within enter leave x := by
  refine funext fun m => ?_
  show (within enter leave (f <$> x)).run m = (f <$> within enter leave x).run m
  rw [run_map, run_within, run_within, run_map]

end

/-! ## Turns -/

/-- However the step ends, the run is as deep in loops as before. -/
def KeepsLoopDepth (x : Run α) : Prop :=
  ∀ m, (x.run m).2.context.loopDepth = m.context.loopDepth

theorem keepsLoopDepth_runList (sv : Services) (frames : Nat) (nodes : List Statement) :
    KeepsLoopDepth (runList sv (callFunction sv frames) nodes) := by
  intro m
  let place : Place := ⟨m.context.depth, m.context.loopDepth, m.context.callDepth⟩
  have hfits : ∀ s ∈ nodes, (framing m.context 0).fits place s := fun s _ =>
    ⟨Nat.zero_le _, fun h => absurd h m.context.depth_pos.ne'⟩
  exact ((framing_kept m.context 0 sv).keeps_runList frames hfits m
    ⟨Nat.zero_le _, rfl, rfl, rfl, .refl 0 _⟩).1.2.2.1

section

variable {variable_ : String} {body : Run Flow}

theorem KeepsLoopDepth.turn (h : KeepsLoopDepth body) (v : Value) :
    KeepsLoopDepth (turn variable_ body v) := by
  intro m
  unfold Run.turn inScope
  rw [run_within, run_bind, run_modifyContext, moveTo_context, Context.loopDepth_popTo]
  exact (h _).trans (Context.loopDepth_modifyCurrent _ _)

/-- What is made of the flow of a turn may as well be made in its scope. -/
theorem map_turn (f : Flow → α) (v : Value) :
    f <$> turn variable_ body v = inScope .block (do
      modifyContext fun c => c.declare variable_ v none
      return f (← body)) := by
  unfold Run.turn inScope
  rw [← within_map, map_bind, map_eq_pure_bind]

theorem nextItem_of_some {items rest : Items} {v : Value} (h : items.next? = some (v, rest)) :
    nextItem variable_ items = (do
      modifyContext fun c => c.declare variable_ v none
      return some rest) := by
  rw [nextItem, h]

theorem nextItem_of_none {items : Items} (h : items.next? = none) :
    nextItem variable_ items = pure none := by
  rw [nextItem, h]

/-- A scope that nothing is done in is left as it was entered. -/
theorem run_inScope_pure (kind : ScopeKind) (a : α) (m : Machine) :
    (inScope kind (pure a)).run m =
      (.ok a, (m.moveTo (m.context.push kind)).moveTo m.context) := by
  rw [inScope, run_within, run_pure, moveTo_context, Context.popTo_push]

variable {limitMillis : Option Nat} {line : Nat}

/-- The turns of a loop are those for its items, one after another. -/
theorem ending_iterate (hbody : KeepsLoopDepth body) (items : Items) (m : Machine) :
    ending (iterate limitMillis line (nextItem variable_) body (items.size + 1) items) m =
      ending (endOfLoop (m.context.loopDepth ≤ 1) <$>
        visit (checkDeadline limitMillis line) (turn variable_ body) items.values) m := by
  induction hvs : items.values generalizing items m with
  | nil =>
    unfold iterate visit
    rw [map_bind]
    refine ending_bind_congr fun _ m' _ => ?_
    rw [nextItem_of_none (Items.next?_of_values_eq_nil hvs), pure_bind,
      ending_bind_of_ok (run_inScope_pure _ _ m')]
    rfl
  | cons v rest ih =>
    obtain ⟨items', hnext, rfl⟩ := Items.next?_of_values_eq_cons hvs
    rw [Items.size_of_next? hnext]
    unfold iterate visit
    rw [map_bind]
    refine ending_bind_congr fun _ m₁ hlook => ?_
    have hm₁ : m₁.context = m.context := by
      have := (quiet_checkDeadline limitMillis line m).1.context
      rwa [hlook] at this
    simp only [nextItem_of_some hnext, bind_assoc, pure_bind]
    rw [← map_turn, map_bind, bind_map_left]
    refine ending_bind_congr fun flow m₂ hturn => ?_
    have hm₂ : m₂.context.loopDepth = m.context.loopDepth := by
      have hkept : KeepsLoopDepth (turn variable_ body v) := hbody.turn v
      have := hkept m₁
      rwa [hturn, hm₁] at this
    cases flow with
    | normal => exact hm₂ ▸ ih items' m₂ rfl
    | continued => exact hm₂ ▸ ih items' m₂ rfl
    | broken => rfl
    | brokenAll =>
      unfold afterTurn
      rw [ending_bind_of_ok (run_context m₂), hm₂]
      show ending (pure _) m₂ = ending (pure _) m₂
      by_cases hdepth : m.context.loopDepth ≤ 1 <;> simp [endOfLoop, hdepth]
    | returned v => rfl

end

/-! ## Main statement -/

/-- A `for` loop evaluates its iterable once. If that gives a sequence with items, the loop does
what running its body for one item after another does, each in a new scope with the variable
declared as the item: `break` ends it normally, `breakAll` does so if no loop of the function is
around it, and what else ends a turn early ends the statement the same way. The maps are in order
at every point of a run (`ordered_runList`), so the keys of a map come in ascending order. -/
theorem runStatement_forLoop (sv : Services) (frames : Nat) (variable_ : String) (it : Iterable)
    (shape : Shape) (line : Nat) (body : List Statement) {m m' : Machine} {seq : Sequence}
    (hm : m.Ordered) (hseq : (sequenceOf line it).run m = (.ok seq, m')) :
    let loop := runStatement sv (callFunction sv frames)
      ⟨.forLoop variable_ it, shape, line, body⟩
    (∃ items, seq.Visits items ∧ (∀ other, seq.Visits other → other = items) ∧
      (∀ v, seq = .each v → Builtin.apply .len [v] = .ok (.int (Int64.ofNat items.length))) ∧
      ending loop m = ending (inLoop (endOfLoop (m.context.loopDepth = 0) <$>
        visit (checkDeadline sv.limitMillis line)
          (turn variable_ (runList sv (callFunction sv frames) body)) items)) m') ∨
    ∃ v, seq = .each v ∧ (∀ items, ¬ seq.Visits items) ∧
      loop.run m = (.error (.fault line (.notIterable v.typeName)), m') := by
  intro loop
  have hcontext : m'.context = m.context := by
    have := (quiet_sequenceOf line it m).1.context
    rwa [hseq] at this
  have hordered : seq.Ordered := ordered_of_sequenceOf hm hseq
  have hloop : loop = (do
      let items ← sequenceOf line it >>= itemsOfSequence line
      inLoop <| iterate sv.limitMillis line (nextItem variable_)
        (runList sv (callFunction sv frames) body) (items.size + 1) items) := by
    rw [← itemsOf_eq]
    simp only [loop, runStatement]
    rfl
  rw [hloop, bind_assoc]
  obtain ⟨items, hitems, hvisits, hlen⟩ | ⟨v, rfl, hnone, hfail⟩ :=
    itemsOfSequence_cases line hordered
  · refine .inl ⟨items.values, hvisits, fun _ => hvisits.unique, hlen, ?_⟩
    rw [ending_bind_of_ok hseq, hitems, pure_bind]
    refine ending_within_congr ?_
    rw [ending_iterate (keepsLoopDepth_runList sv frames body), moveTo_context, hcontext]
    have hdepth : (m.context.enterLoop.loopDepth ≤ 1) = (m.context.loopDepth = 0) := by
      simp [Context.enterLoop]
    simp only [hdepth]
  · refine .inr ⟨v, rfl, hnone, ?_⟩
    rw [run_bind, hseq]
    simp only [hfail]
    rfl

/-- A map of the host, in an outermost loop. -/
theorem runStatement_forLoop_keys :
    let it : Iterable := .each ⟨"prices"⟩
    let prices : Value := .map [("apple", .int 2), ("pear", .int 3)]
    let m := start [("prices", prices)]
      (Memo.standard.remember "prices" (.variable_ "prices")) none
    let call := callFunction (.bare 0) maxCallDepth
    let body : List Statement := [.ofLine .breakAll 2]
    m.Ordered ∧ (sequenceOf 1 it).run m = (.ok (.each prices), m) ∧
      ending (runStatement (.bare 0) call (.ofBlock (.forLoop "fruit" it) 1 body)) m =
        ending (inLoop (endOfLoop true <$> visit (checkDeadline none 1)
          (turn "fruit" (runList (.bare 0) call body)) [.str "apple", .str "pear"])) m := by
  intro it prices m call body
  have hsource : Expression.ofSource "prices" = .ok (.variable_ "prices") := by
    have htokens : Token.ofChars "prices".toList = .ok [⟨.ident "prices", 1, 0, 6⟩] := by cbv
    rw [Expression.ofSource, htokens]
    rfl
  have hentries : Table.Ordered [("apple", Value.int 2), ("pear", Value.int 3)] :=
    .cons (List.forall_mem_singleton.mpr (by decide)) (List.pairwise_singleton _ _)
  have hprices : prices.Ordered := .map hentries
    (List.forall_mem_cons.mpr ⟨.scalar trivial, List.forall_mem_singleton.mpr (.scalar trivial)⟩)
  have hm : m.Ordered := ordered_start (List.forall_mem_singleton.mpr hprices)
    (Memo.sound_standard.remember hsource) none m (.head _)
  have hseq : (sequenceOf 1 it).run m = (.ok (.each prices), m) := rfl
  refine ⟨hm, hseq, ?_⟩
  obtain ⟨items, -, hunique, -, hloop⟩ | ⟨v, -, hnone, -⟩ :=
    runStatement_forLoop (.bare 0) maxCallDepth "fruit" it .block 1 body hm hseq
  · obtain rfl := hunique _ (Sequence.visits_keys hentries)
    exact hloop
  · exact absurd (Sequence.visits_keys hentries) (hnone _)

end Run

end PipelineScript
