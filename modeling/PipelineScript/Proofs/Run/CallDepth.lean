import PipelineScript.Proofs.Context.Scopes
import PipelineScript.Proofs.Run.Discipline
import PipelineScript.Proofs.Run.Watching

/-! # The call depth and the scopes of functions

A context counts the calls that it is inside of. Main statement: wherever a statement begins or
writes, the count is the number of scopes that functions have opened (`counted_runList`). Only where
a frame is entered or left is it ahead of the scopes for a moment. -/

namespace PipelineScript

namespace Context

/-- The kinds of the scopes, the innermost first. -/
def kinds (c : Context) : List ScopeKind := c.scopes.map Scope.kind

/-- The calls that the context is inside of are the functions whose scopes are open. -/
def Counted (c : Context) : Prop := c.callDepth = c.kinds.count .function

/-- The context is on its way into a function or out of it: its frame is there, its scope is not. -/
def Passing (c : Context) : Prop := c.callDepth = c.kinds.count .function + 1

variable {c : Context}

/-- Nothing but scopes of the given kinds has been opened since. -/
theorem kinds_popTo {inside outside : List ScopeKind} (h : c.kinds = inside ++ outside)
    (ho : outside ≠ []) : (c.popTo outside.length).kinds = outside := by
  have hpos : 0 < outside.length := List.length_pos_iff.mpr ho
  have hd : c.depth = inside.length + outside.length := by
    rw [depth_eq_length, ← List.length_map Scope.kind]
    exact (congrArg List.length h).trans List.length_append
  have hi : c.depth - outside.length = inside.length := by omega
  have hle : inside.length ≤ c.inner.length := by simp only [depth] at hd; omega
  rw [kinds, scopes, inner_popTo c hpos, hi]
  have hg : (c.popTo outside.length).global = c.global := by
    simp [popTo, Nat.ne_of_gt hpos]
  rw [hg, ← List.drop_append_of_le_length hle, List.map_drop]
  exact (congrArg (List.drop inside.length) h).trans List.drop_left

theorem kinds_modifyCurrent (c : Context) {f : Scope → Scope} (hf : ∀ s, (f s).kind = s.kind) :
    (c.modifyCurrent f).kinds = c.kinds := by
  obtain ⟨s, rest, hc, hc'⟩ := c.scopes_modifyCurrent f
  simp [kinds, hc, hc', hf]

theorem kinds_declare (c : Context) (name : String) (v : Value) (declaredType : Option String) :
    (c.declare name v declaredType).kinds = c.kinds := c.kinds_modifyCurrent fun _ => rfl

theorem kinds_assign (c : Context) (name : String) (v : Value) :
    (c.assign name v).kinds = c.kinds := by
  obtain ⟨before, s, b, after, hc, -, -, hc'⟩ | ⟨-, hc'⟩ := c.scopes_assign name v
  · simp [kinds, hc, hc', Scope.bind]
  · rw [hc']
    exact c.kinds_declare name v none

theorem kinds_setExport (c : Context) (v : Value) : (c.setExport v).kinds = c.kinds := by
  simp [kinds, scopes, setExport, Scope.bind]

theorem kinds_takeExport (c : Context) : c.takeExport.2.kinds = c.kinds := by
  simp [kinds, scopes, takeExport]

theorem kinds_hoist (nodes : List Statement) (c : Context) :
    (nodes.foldl Run.bindDefinition c).kinds = c.kinds := by
  induction nodes generalizing c with
  | nil => rfl
  | cons s rest ih =>
    refine (ih _).trans ?_
    unfold Run.bindDefinition
    split
    · exact c.kinds_modifyCurrent fun _ => rfl
    · rfl

theorem kinds_bindParams (params : List String) (args : List Value) (c : Context) :
    (Run.bindParams params args c).kinds = c.kinds := by
  induction params generalizing args c with
  | nil => rfl
  | cons param params ih =>
    cases args with
    | nil => rfl
    | cons arg args => exact (ih args _).trans (c.kinds_declare param arg none)

end Context

/-- Contexts in which statements begin or write are counted, and so are all others but for those at
the entrance of a function and at its exit. -/
def Event.Counted : Event → Prop
  | moved c => c.Counted ∨ c.Passing
  | wrote _ before after => before.Counted ∧ after.Counted
  | ran _ began _ => began.Counted
  | called .. => True

namespace Run

/-- The discipline of the count, by the kinds of the scopes that are open. -/
def counting : Discipline (List ScopeKind) where
  inBlock k := .block :: k
  inFunction k := .function :: k
  holds k _ m := k ≠ [] ∧ m.context.kinds = k ∧ m.context.callDepth = k.count .function ∧
    m.Tells Event.Counted

variable {k : List ScopeKind} {b : Bool} {m m' : Machine}

theorem counted_of_counting (hm : counting.holds k b m) : m.context.Counted := by
  obtain ⟨-, hk, hc, -⟩ := hm
  rw [Context.Counted, hc, hk]

theorem depth_of_counting (hm : counting.holds k b m) : m.context.depth = k.length := by
  rw [Context.depth_eq_length, ← hm.2.1, Context.kinds, List.length_map]

/-- A move that opens no scope and leaves none. -/
theorem counting_moveTo {c : Context} (hm : counting.holds k b m)
    (hk : c.kinds = m.context.kinds) (hc : c.callDepth = m.context.callDepth) :
    counting.holds k b (m.moveTo c) := by
  have hcounted : c.Counted := by
    rw [Context.Counted, hc, hk]
    exact counted_of_counting hm
  obtain ⟨hne, hk', hc', he⟩ := hm
  exact ⟨hne, hk.trans hk', hc.trans hc', he.moveTo (.inl hcounted)⟩

theorem counting_write {s : Statement} {c : Context} (hm : counting.holds k b m)
    (hk : c.kinds = m.context.kinds) (hc : c.callDepth = m.context.callDepth) :
    counting.holds k b (m.write s c) := by
  have hbefore := counted_of_counting hm
  have hafter : c.Counted := by
    rw [Context.Counted, hc, hk]
    exact hbefore
  obtain ⟨hne, hk', hc', he⟩ := hm
  exact ⟨hne, hk.trans hk', hc.trans hc', he.write ⟨hbefore, hafter⟩⟩

/-- The frame comes first, then the scope. -/
theorem counting_enterCall (hm : counting.holds k b m) (params : List String) (args : List Value) :
    counting.holds (.function :: k) b (m.enterCall params args) := by
  obtain ⟨-, hk, hc, he⟩ := hm
  let framed := m.context.enterFunction
  let opened := framed.push .function
  have hframed : framed.Passing := by
    show m.context.callDepth + 1 = m.context.kinds.count .function + 1
    rw [hc, hk]
  have hcount : m.context.callDepth + 1 = (ScopeKind.function :: k).count .function := by
    rw [hc, List.count_cons_self]
  have hkinds : opened.kinds = .function :: k := congrArg (ScopeKind.function :: ·) hk
  have hopened : opened.Counted := by
    rw [Context.Counted, hkinds]
    exact hcount
  have hentered : counting.holds (.function :: k) b ((m.moveTo framed).moveTo opened) :=
    ⟨List.cons_ne_nil _ _, hkinds, hcount, (he.moveTo (.inr hframed)).moveTo (.inl hopened)⟩
  exact counting_moveTo hentered (Context.kinds_bindParams params args opened)
    (Context.SameOutside.bindParams params args opened).callDepth

/-- The scope goes first, then the frame. -/
theorem counting_leaveCall (hm : counting.holds k true m)
    (hm' : counting.holds (.function :: k) b m') :
    counting.holds k b (m.leaveCall m') := by
  have hd := depth_of_counting hm
  obtain ⟨hne, -⟩ := hm
  obtain ⟨-, hk', hc', he'⟩ := hm'
  rw [List.count_cons_self] at hc'
  let left := m'.context.popTo m.context.depth
  have hleft : left.kinds = k := by
    simp only [left, hd]
    exact Context.kinds_popTo (show m'.context.kinds = [.function] ++ k from hk') hne
  have hpassing : left.Passing := by
    rw [Context.Passing, hleft]
    exact (Context.callDepth_popTo _ _).trans hc'
  have hcount : left.callDepth - 1 = k.count .function := by
    rw [show left.callDepth = k.count .function + 1 from (Context.callDepth_popTo _ _).trans hc']
    rfl
  have hout : (left.exitFunction m.context.loopDepth).Counted := by
    show left.callDepth - 1 = left.kinds.count .function
    rw [hleft, hcount]
  exact ⟨hne, hleft, hcount, (he'.moveTo (.inr hpassing)).moveTo (.inl hout)⟩

theorem counting_kept (sv : Services) : counting.Kept sv where
  shapes := .trivial (fun _ => trivial) fun _ _ => trivial
  flows := .trivial (fun _ _ => trivial) fun _ => trivial
  values := .trivial fun _ => trivial
  quiet hr hm := ⟨hm.1, hr.context ▸ hm.2.1, hr.context ▸ hm.2.2.1, hm.2.2.2.of_events hr.events⟩
  stop := id
  ordinary _ := trivial
  stray _ _ _ := trivial
  importPath {k s m path localName} _ _ hm :=
    counting_write hm (Context.kinds_declare (m.context.addImport localName path) _ _ _)
      (Context.callDepth_modifyCurrent (m.context.addImport localName path) _)
  declare _ _ _ _ hm := counting_write hm.holds (Context.kinds_declare _ _ _ _)
    (Context.callDepth_modifyCurrent _ _)
  assign _ _ _ _ hm := counting_write hm.holds (Context.kinds_assign _ _ _)
    (Context.counters_assign _ _ _).2
  taskBlock _ _ _ hm := counting_write hm.holds (Context.kinds_assign _ _ _)
    (Context.counters_assign _ _ _).2
  exportValue _ _ _ hm := counting_write hm.holds (Context.kinds_setExport _ _) rfl
  ended _ _ hm := hm
  hoist _ hm := counting_moveTo hm (Context.kinds_hoist _ _)
    (Context.SameOutside.hoist _ _).callDepth
  push {k m} hm := by
    obtain ⟨-, hk, hc, he⟩ := hm
    have hkinds : (m.context.push .block).kinds = .block :: k := congrArg (ScopeKind.block :: ·) hk
    have hcount : m.context.callDepth = (ScopeKind.block :: k).count .function := by
      rw [hc, List.count_cons_of_ne (by decide)]
    refine ⟨List.cons_ne_nil _ _, hkinds, hcount, he.moveTo (.inl ?_)⟩
    rw [Context.Counted, hkinds]
    exact hcount
  pop {k _ m m'} hm hm' := by
    have hd := depth_of_counting hm
    obtain ⟨hne, -⟩ := hm
    obtain ⟨-, hk', hc', he'⟩ := hm'
    have hkinds : (m'.context.popTo m.context.depth).kinds = k := by
      rw [hd]
      exact Context.kinds_popTo (show m'.context.kinds = [.block] ++ k from hk') hne
    have hcount : (m'.context.popTo m.context.depth).callDepth = k.count .function := by
      rw [Context.callDepth_popTo, hc']
      exact List.count_cons_of_ne (by decide)
    refine ⟨hne, hkinds, hcount, he'.moveTo (.inl ?_)⟩
    rw [Context.Counted, hkinds]
    exact hcount
  enterLoop hm := counting_moveTo hm rfl rfl
  exitLoop _ hm' := counting_moveTo hm' rfl rfl
  item _ _ _ hm := counting_moveTo hm (Context.kinds_declare _ _ _ _)
    (Context.callDepth_modifyCurrent _ _)
  callable _ _ := ⟨trivial, fun _ _ _ _ _ => trivial, fun _ _ => ⟨rfl, trivial⟩⟩
  enterCall _ _ _ hm := counting_enterCall hm _ _
  leaveCall hm hm' := counting_leaveCall hm hm'
  ran _ hm _ hm' := ⟨hm'.1, hm'.2.1, hm'.2.2.1, hm'.2.2.2.conclude (counted_of_counting hm)⟩
  called _ hm := ⟨hm.1, hm.2.1, hm.2.2.1, hm.2.2.2.note trivial⟩

theorem kinds_ofHost (host : HostValues) : (Context.ofHost host).kinds = [.global] := by
  have hg : (Context.ofHost host).global.kind = .global :=
    List.foldlRecOn (motive := fun s : Scope => s.kind = .global) host _ rfl fun _ hs _ _ => hs
  show [(Context.ofHost host).global.kind] = _
  rw [hg]

/-- From the start of a run to its end, the calls that it is inside of are the functions whose
scopes are open. -/
theorem counted_runList (sv : Services) (frames : Nat) (nodes : List Statement)
    (host : HostValues) (memo : Memo) (monitor : Option Monitor) :
    let m := (start host memo monitor).watched
    let m' := ((runList sv (callFunction sv frames) nodes).run m).2
    m.context.Counted ∧ m'.context.Counted ∧ m'.Tells Event.Counted := by
  intro m m'
  have hm : counting.holds [.global] true m :=
    ⟨List.cons_ne_nil _ _, kinds_ofHost host, rfl, Machine.tells_watched _⟩
  have hm' : counting.holds [.global] _ m' :=
    ((counting_kept sv).keeps_runList frames (fun _ _ => trivial) m hm).1
  exact ⟨counted_of_counting hm, counted_of_counting hm', hm'.2.2.2⟩

end Run

end PipelineScript
