import PipelineScript.Proofs.Context.Scopes
import PipelineScript.Proofs.Run.Discipline

/-! # What a statement leaves as it was

However a statement ends, the run stands in the same scope as before, as deep in loops and calls as
before. Main statement: `frame_runStatement`. A statement may bind names in the current scope; all
scopes around it only get other values. A statement with a body of its own, or a call, does not even
bind names in the current scope. -/

namespace PipelineScript

/-- The statement only binds names in scopes of its own. -/
def Kind.isCompound : Kind → Bool
  | .conditional | .switch _ | .forLoop .. | .whileLoop _ | .call _ => true
  | _ => false

namespace Run

/-- How deep a statement stands. -/
structure Place where
  scopes : Nat
  loops : Nat
  calls : Nat

/-- The first `fixed` scopes of a context keep their names. -/
def KeepsScopes (fixed : Nat) (c c' : Context) : Prop :=
  ∀ i < fixed, ∀ s, c.scope? i = some s → ∃ t, c'.scope? i = some t ∧ s.Alike i t

theorem KeepsScopes.refl (fixed : Nat) (c : Context) : KeepsScopes fixed c c :=
  fun i _ s hs => ⟨s, hs, .refl i s⟩

theorem KeepsScopes.trans {fixed : Nat} {a b c : Context} (h : KeepsScopes fixed a b)
    (h' : KeepsScopes fixed b c) : KeepsScopes fixed a c := by
  intro i hi r hr
  obtain ⟨s, hs, hrs⟩ := h i hi r hr
  obtain ⟨t, ht, hst⟩ := h' i hi s hs
  exact ⟨t, ht, hrs.trans hst⟩

/-- The first `fixed` scopes may not get other names than they have in `c`. In the innermost of
them only statements may run that bind no names there. -/
def framing (c : Context) (fixed : Nat) : Discipline Place where
  inBlock k := { k with scopes := k.scopes + 1 }
  inLoop k := { k with loops := k.loops + 1 }
  inFunction k := ⟨k.scopes + 1, 0, k.calls + 1⟩
  fits k s := fixed ≤ k.scopes ∧ (k.scopes = fixed → s.kind.isCompound)
  holds k _ m := fixed ≤ k.scopes ∧ m.context.depth = k.scopes ∧ m.context.loopDepth = k.loops ∧
    m.context.callDepth = k.calls ∧ KeepsScopes fixed c m.context

variable {c : Context} {fixed : Nat} {k : Place}

/-- A statement may change the current scope if that is not one of the fixed ones. -/
theorem framing_update {b : Bool} {m m' : Machine} (hk : fixed < k.scopes)
    (hs : m.context.SameOutside m'.context) (hm : (framing c fixed).holds k b m) :
    (framing c fixed).holds k b m' := by
  obtain ⟨hf, hd, hl, hc, hms⟩ := hm
  exact ⟨hf, hs.depth.trans hd, hs.loopDepth.trans hl, hs.callDepth.trans hc,
    hms.trans fun i hi s h => hs.scopes i (by omega) s h⟩

/-- Only statements that bind names are kept out of the innermost fixed scope. -/
theorem fixed_lt {s : Statement} (hs : (framing c fixed).fits k s) (hk : s.kind.isCompound = false) :
    fixed < k.scopes := by
  obtain ⟨hf, hc⟩ := hs
  refine Nat.lt_of_le_of_ne hf fun h => ?_
  simpa [hk] using hc h.symm

/-- Statements that bind no names in the current scope define no functions there. -/
theorem foldl_bindDefinition_of_compound {nodes : List Statement}
    (hn : ∀ s ∈ nodes, s.kind.isCompound) (m : Context) : nodes.foldl bindDefinition m = m := by
  induction nodes with
  | nil => rfl
  | cons s rest ih =>
    have hs := hn s (by simp)
    have hb : bindDefinition m s = m := by
      unfold bindDefinition
      split
      · rename_i h; simp [h, Kind.isCompound] at hs
      · rfl
    rw [List.foldl_cons, hb]
    exact ih fun t ht => hn t (by simp [ht])

/-! ## The discipline is kept -/

/-- In a scope that is not one of the fixed ones any statement may run. -/
theorem fits_of_lt (c : Context) {s : Statement} (hk : fixed < k.scopes) :
    (framing c fixed).fits k s := ⟨Nat.le_of_lt hk, fun h => absurd h (Nat.ne_of_gt hk)⟩

theorem framing_kept (c : Context) (fixed : Nat) (sv : Services) : (framing c fixed).Kept sv where
  shapes := {
    own := fun _ _ => trivial
    armOwn := fun _ _ _ _ => trivial
    arm := fun hs _ _ _ => fits_of_lt c (Nat.lt_succ_of_le hs.1)
    body := fun hs _ _ => fits_of_lt c (Nat.lt_succ_of_le hs.1) }
  flows := .trivial (fun _ _ => trivial) fun _ => trivial
  values := .trivial fun _ => trivial
  quiet hr hm := by simpa only [framing, hr.context] using hm
  stop := id
  ordinary _ := trivial
  stray _ _ _ := trivial
  importPath hs hk hm := framing_update (fixed_lt hs (by simp [hk, Kind.isCompound]))
    ((Context.SameOutside.addImport _ _ _).trans (.declare _ _ _ _)) hm
  declare hs hk _ _ hm := framing_update (fixed_lt hs (by simp [hk, Kind.isCompound]))
    (.declare _ _ _ _) hm.holds
  assign hs hk _ _ hm := framing_update (fixed_lt hs (by simp [hk, Kind.isCompound]))
    (.assign _ _ _) hm.holds
  taskBlock hs hk _ hm := framing_update (fixed_lt hs (by simp [hk, Kind.isCompound]))
    (.assign _ _ _) hm.holds
  exportValue hs hk _ hm := framing_update (fixed_lt hs (by simp [hk, Kind.isCompound]))
    (.setExport _ _) hm.holds
  ended _ _ hm := hm
  hoist {k m nodes} hn hm := by
    by_cases hk : k.scopes = fixed
    · rw [foldl_bindDefinition_of_compound (fun s h => (hn s h).2 hk)]
      exact hm
    · exact framing_update (Nat.lt_of_le_of_ne hm.1 (Ne.symm hk))
        (.hoist nodes m.context) hm
  push {k m} hm := by
    obtain ⟨hf, hd, hl, hc, hs⟩ := hm
    refine ⟨Nat.le_succ_of_le hf, by simp [hd, framing], hl, hc, hs.trans fun i hi s h => ?_⟩
    exact ⟨s, (Context.scope?_push _ (by omega) _).trans h, .refl i s⟩
  pop {k _ m m'} hm hm' := by
    obtain ⟨hf, hd, -⟩ := hm
    obtain ⟨-, hd', hl', hc', hs'⟩ := hm'
    have hle : m.context.depth ≤ m'.context.depth := by simp only [framing] at hd'; omega
    have hpos := m.context.depth_pos
    refine ⟨hf, (m'.context.depth_popTo hpos hle).trans hd,
      (m'.context.loopDepth_popTo _).trans hl', (m'.context.callDepth_popTo _).trans hc',
      hs'.trans fun i hi s h => ⟨s, ?_, .refl i s⟩⟩
    exact (m'.context.scope?_popTo (by omega) hle).trans h
  enterLoop hm := ⟨hm.1, hm.2.1, congrArg (· + 1) hm.2.2.1, hm.2.2.2⟩
  exitLoop {k _ m m'} hm hm' := by
    obtain ⟨hf, hd, hl, hc, hs⟩ := hm'
    exact ⟨hf, hd, by simp [Context.exitLoop, hl, framing], hc, hs⟩
  item hs _ _ hm := framing_update (Nat.lt_succ_of_le hs.1) (.declare _ _ _ _) hm
  callable hm _ := ⟨trivial, fun _ _ _ _ _ => fits_of_lt c (Nat.lt_succ_of_le hm.1),
    fun _ _ => ⟨rfl, trivial⟩⟩
  enterCall {k m f name params args} _ _ _ hm := by
    obtain ⟨hf, hd, hl, hc, hs⟩ := hm
    let opened := m.context.enterFunction.push .function
    have hp : (framing c fixed).holds ⟨k.scopes + 1, 0, k.calls + 1⟩ true (m.moveTo opened) := by
      refine ⟨Nat.le_succ_of_le hf, ?_, rfl, congrArg (· + 1) hc, hs.trans fun i hi s h => ?_⟩
      · exact (Context.depth_push _ _).trans (congrArg (· + 1) hd)
      · exact ⟨s, (Context.scope?_push _ (by show i < m.context.depth; omega) _).trans h,
          .refl i s⟩
    exact framing_update (m := m.moveTo opened) (Nat.lt_succ_of_le hf)
      (.bindParams params args opened) hp
  leaveCall {k _ m m'} hm hm' := by
    obtain ⟨hf, hd, hl, hc, -⟩ := hm
    obtain ⟨-, hd', -, hc', hs'⟩ := hm'
    have hle : m.context.depth ≤ m'.context.depth := by simp only [framing] at hd'; omega
    have hpos := m.context.depth_pos
    refine ⟨hf, (m'.context.depth_popTo hpos hle).trans hd, hl, ?_,
      hs'.trans fun i hi s h => ⟨s, ?_, .refl i s⟩⟩
    · simp [Machine.leaveCall, Context.exitFunction, hc', framing]
    · exact (m'.context.scope?_popTo (by omega) hle).trans h
  ran _ _ _ hm := hm
  called _ hm := hm

/-! ## Main statement -/

/-- A statement leaves the current scope, the loops and the calls as they were, however it ends.
The scopes around the current one keep their names, and if the statement only binds names in scopes
of its own, so does the current one. -/
theorem frame_runStatement (sv : Services) (frames : Nat) (s : Statement) (m : Machine) :
    let before := m.context
    let after := ((runStatement sv (callFunction sv frames) s).run m).2.context
    after.depth = before.depth ∧ after.loopDepth = before.loopDepth ∧
      after.callDepth = before.callDepth ∧
      ∀ i < before.depth, i + 1 < before.depth ∨ s.kind.isCompound →
        ∃ old new, before.scope? i = some old ∧ after.scope? i = some new ∧ old.Alike i new := by
  intro before after
  let place : Place := ⟨before.depth, before.loopDepth, before.callDepth⟩
  let r := (runStatement sv (callFunction sv frames) s).run m
  have hrun (fixed : Nat) (hf : fixed ≤ before.depth)
      (hs : before.depth = fixed → s.kind.isCompound) :
      (framing before fixed).holds place r.1.isOk r.2 :=
    (framing_kept before fixed sv).keeps_runStatement (k := place) frames ⟨hf, hs⟩
      ⟨hf, rfl, rfl, rfl, .refl fixed before⟩
  obtain ⟨-, hd, hl, hc, -⟩ := hrun (before.depth - 1) (by omega)
    fun h => absurd h (by have := before.depth_pos; omega)
  refine ⟨hd, hl, hc, fun i hi hor => ?_⟩
  obtain ⟨old, hold⟩ := before.scope?_isSome hi
  obtain hout | hcomp := hor
  · have hs := (hrun (before.depth - 1) (by omega)
      fun h => absurd h (by have := before.depth_pos; omega)).2.2.2.2
    obtain ⟨new, hnew, ha⟩ := hs i (by omega) old hold
    exact ⟨old, new, hold, hnew, ha⟩
  · have hs := (hrun before.depth (Nat.le_refl _) fun _ => hcomp).2.2.2.2
    obtain ⟨new, hnew, ha⟩ := hs i hi old hold
    exact ⟨old, new, hold, hnew, ha⟩

/-- A call of a function that does not exist, in the global scope. -/
theorem frame_runStatement_call :
    let s : Statement := .ofLine (.call ⟨"f", []⟩) 1
    let m := start [("x", .bool true)] .standard none
    s.kind.isCompound ∧ 0 < m.context.depth ∧ ∃ old new, m.context.scope? 0 = some old ∧
      ((runStatement (.bare 0) (callFunction (.bare 0) 1) s).run m).2.context.scope? 0 = some new ∧
      old.Alike 0 new :=
  ⟨rfl, Nat.succ_pos _, (frame_runStatement (.bare 0) 1 _ _).2.2.2 0 (Nat.succ_pos _) (.inr rfl)⟩

end Run

end PipelineScript
