import Mathlib
import PipelineScript.Proofs.Context.Scopes
import PipelineScript.Proofs.Table

/-! # A context is a stack of finite maps

Seen from outside, a context is a stack of layers, the global one at the bottom. A layer has a
finite map from names to bindings and one from names to functions. Every operation on a context
does to its stack what the operation of that name on stacks does, and what can be looked up in the
context is the topmost entry of the stack. -/

namespace PipelineScript

/-- What can be done to the scopes and the counters of a context. -/
inductive Context.Operation where
  | push (kind : ScopeKind)
  /-- Leaves the scope of a handle. The scope may be gone, and the handle may be that of another
  scope by now. -/
  | leave (id : UInt32)
  | declare (name : String) (v : Value) (declaredType : Option String)
  | assign (name : String) (v : Value)
  | bindFunction (name : String) (definition : Statement)
  | setExport (v : Value)
  | takeExport
  | enterLoop
  | exitLoop
  | enterFunction
  | exitFunction (loopDepth : Nat)

namespace Context

def perform (c : Context) : Operation → Context
  | .push kind => c.push kind
  | .leave id => c.popTo id.toNat
  | .declare name v declaredType => c.declare name v declaredType
  | .assign name v => c.assign name v
  | .bindFunction name definition => c.bindFunction name definition
  | .setExport v => c.setExport v
  | .takeExport => c.takeExport.2
  | .enterLoop => c.enterLoop
  | .exitLoop => c.exitLoop
  | .enterFunction => c.enterFunction
  | .exitFunction loopDepth => c.exitFunction loopDepth

def performAll (c : Context) (ops : List Operation) : Context := ops.foldl perform c

end Context

/-! ## Stacks -/

structure Layer where
  kind : ScopeKind
  bindings : Finmap fun _ : String => Binding
  functions : Finmap fun _ : String => Statement

namespace Layer

def empty (kind : ScopeKind) : Layer := ⟨kind, ∅, ∅⟩

def bind (l : Layer) (name : String) (b : Binding) : Layer :=
  { l with bindings := l.bindings.insert name b }

def unbind (l : Layer) (name : String) : Layer := { l with bindings := l.bindings.erase name }

def define (l : Layer) (name : String) (definition : Statement) : Layer :=
  { l with functions := l.functions.insert name definition }

end Layer

/-- The layers from the bottom to the top. -/
abbrev Stack := List Layer

/-- The element after so many others is the one that is changed. -/
theorem modify_length_append {α : Type} (f : α → α) (lower upper : List α) (a : α) :
    (lower ++ a :: upper).modify lower.length f = lower ++ f a :: upper :=
  List.modifyTailIdx_add (List.modifyHead f) 0 lower (a :: upper)

namespace Stack

variable {α : Type}

/-- The topmost entry that a layer has, with the number of the layer. -/
def topmost (entry : Layer → Option α) : Stack → Option (Nat × α)
  | [] => none
  | l :: upper =>
    match topmost entry upper with
    | some (i, a) => some (i + 1, a)
    | none => (entry l).map (0, ·)

def binding? (s : Stack) (name : String) : Option (Nat × Binding) :=
  s.topmost fun l => l.bindings.lookup name

def lookUp (s : Stack) (name : String) : Option Value :=
  (s.binding? name).map fun (_, b) => b.value

def function? (s : Stack) (name : String) : Option Statement :=
  (s.topmost fun l => l.functions.lookup name).map Prod.snd

def export? (s : Stack) : Option Value :=
  (s.head?.bind fun l => l.bindings.lookup Context.exportName).map Binding.value

/-- A change of the layer at the top. -/
def modifyTop (s : Stack) (f : Layer → Layer) : Stack := s.modify (s.length - 1) f

/-- A change of the layer at the bottom. -/
def modifyBottom (s : Stack) (f : Layer → Layer) : Stack := s.modify 0 f

/-- One new layer with the values of a host, as plain variables. -/
def ofHost (host : HostValues) : Stack :=
  [host.foldl (fun l (name, v) => l.bind (Context.seedName name) ⟨v, none⟩) (.empty .global)]

def perform (s : Stack) : Context.Operation → Stack
  | .push kind => s ++ [.empty kind]
  | .leave id => if 0 < id.toNat ∧ id.toNat < s.length then s.take id.toNat else s
  | .declare name v declaredType => s.modifyTop (·.bind name ⟨v, declaredType⟩)
  | .assign name v =>
    match s.binding? name with
    | some (i, b) => s.modify i (·.bind name { b with value := v })
    | none => s.modifyTop (·.bind name ⟨v, none⟩)
  | .bindFunction name definition => s.modifyTop (·.define name definition)
  | .setExport v => s.modifyBottom (·.bind Context.exportName ⟨v, none⟩)
  | .takeExport => s.modifyBottom (·.unbind Context.exportName)
  | .enterLoop | .exitLoop | .enterFunction | .exitFunction _ => s

def performAll (s : Stack) (ops : List Context.Operation) : Stack := ops.foldl perform s

/-- An operation opens one scope at most. -/
theorem length_performAll_le (ops : List Context.Operation) (s : Stack) :
    (s.performAll ops).length ≤ s.length + ops.length := by
  have hone (s : Stack) (op : Context.Operation) : (s.perform op).length ≤ s.length + 1 := by
    cases op with
    | push kind => exact Nat.le_of_eq List.length_append
    | leave id =>
      dsimp only [perform]
      split
      · exact Nat.le_succ_of_le (List.length_take_le' _ _)
      · exact Nat.le_succ _
    | assign name v =>
      dsimp only [perform]
      split <;> simp [modifyTop]
    | declare | bindFunction | setExport | takeExport =>
      simp [perform, modifyTop, modifyBottom]
    | enterLoop | exitLoop | enterFunction | exitFunction => exact Nat.le_succ _
  induction ops generalizing s with
  | nil => exact Nat.le_refl _
  | cons op ops ih =>
    have hrest := ih (s.perform op)
    have hfirst := hone s op
    rw [List.length_cons]
    exact hrest.trans (by omega)

theorem topmost_eq_none {entry : Layer → Option α} {s : Stack} (h : ∀ l ∈ s, entry l = none) :
    topmost entry s = none := by
  induction s with
  | nil => rfl
  | cons l upper ih =>
    rw [topmost, ih fun r hr => h r (List.mem_cons_of_mem _ hr), h l List.mem_cons_self]
    rfl

/-- Layers without an entry are passed over. -/
theorem topmost_append {entry : Layer → Option α} {upper : Stack}
    (h : ∀ l ∈ upper, entry l = none) (lower : Stack) (l : Layer) {a : α} (ha : entry l = some a) :
    topmost entry (lower ++ l :: upper) = some (lower.length, a) := by
  induction lower with
  | nil => rw [List.nil_append, topmost, topmost_eq_none h, ha]; rfl
  | cons r lower ih => rw [List.cons_append, topmost, ih]; rfl

end Stack

/-! ## The stack of a context -/

def Scope.layer (s : Scope) : Layer :=
  ⟨s.kind, Table.toFinmap s.bindings, Table.toFinmap s.functions⟩

namespace Scope

@[simp] theorem layer_empty (kind : ScopeKind) : (Scope.empty kind).layer = .empty kind := rfl

@[simp] theorem layer_bind (s : Scope) (name : String) (b : Binding) :
    (s.bind name b).layer = s.layer.bind name b := by
  simp only [layer, bind, Layer.bind, Table.toFinmap_insert]

end Scope

namespace Context

variable {c c' : Context} {before after : List Scope} {s : Scope}

def stack (c : Context) : Stack := c.scopes.reverse.map Scope.layer

theorem scopes_eq_global (c : Context) : c.scopes = c.inner ++ c.global :: [] := rfl

/-- Nothing is before the current scope. -/
theorem scopes_eq_current (c : Context) (f : Scope → Scope) : ∃ s outer,
    c.scopes = [] ++ s :: outer ∧ (c.modifyCurrent f).scopes = [] ++ f s :: outer :=
  c.scopes_modifyCurrent f

theorem length_stack (c : Context) : c.stack.length = c.depth := by
  rw [stack, List.length_map, List.length_reverse, depth_eq_length]

theorem stack_of_scopes (hc : c.scopes = before ++ s :: after) :
    c.stack = after.reverse.map Scope.layer ++ s.layer :: before.reverse.map Scope.layer := by
  simp [stack, hc]

/-- A change of one scope is a change of its layer. -/
theorem stack_modify (f : Scope → Scope) (g : Layer → Layer)
    (hc : c.scopes = before ++ s :: after) (hc' : c'.scopes = before ++ f s :: after)
    (hf : (f s).layer = g s.layer) : c'.stack = c.stack.modify after.length g := by
  have hlength : after.length = (after.reverse.map Scope.layer).length := by simp
  rw [stack_of_scopes hc, stack_of_scopes hc', hf, hlength, modify_length_append]

theorem stack_modifyCurrent {f : Scope → Scope} {g : Layer → Layer}
    (hf : ∀ s, (f s).layer = g s.layer) (c : Context) :
    (c.modifyCurrent f).stack = c.stack.modifyTop g := by
  obtain ⟨s, outer, hc, hc'⟩ := c.scopes_eq_current f
  have hlength : c.stack.length - 1 = outer.length := by simp [stack, hc]
  rw [Stack.modifyTop, hlength]
  exact stack_modify f g hc hc' (hf s)

theorem stack_declare (c : Context) (name : String) (v : Value) (declaredType : Option String) :
    (c.declare name v declaredType).stack = c.stack.modifyTop (·.bind name ⟨v, declaredType⟩) :=
  stack_modifyCurrent (fun s => s.layer_bind name _) c

theorem stack_modifyGlobal (f : Scope → Scope) {g : Layer → Layer}
    (hf : ∀ s, (f s).layer = g s.layer) (c : Context) :
    { c with global := f c.global }.stack = c.stack.modifyBottom g :=
  stack_modify f g c.scopes_eq_global rfl (hf c.global)

/-- The first scope with an entry is the topmost layer with one. -/
theorem topmost_stack {α : Type} {entry : Layer → Option α} (hc : c.scopes = before ++ s :: after)
    (hbefore : ∀ r ∈ before, entry r.layer = none) {a : α} (hs : entry s.layer = some a) :
    c.stack.topmost entry = some (after.length, a) := by
  have hupper : ∀ l ∈ before.reverse.map Scope.layer, entry l = none := by
    simpa using hbefore
  rw [stack_of_scopes hc, Stack.topmost_append hupper _ _ hs]
  simp

theorem topmost_stack_eq_none {α : Type} {entry : Layer → Option α}
    (h : ∀ s ∈ c.scopes, entry s.layer = none) : c.stack.topmost entry = none :=
  Stack.topmost_eq_none (by simpa [stack] using h)

/-- What is first found in the scopes is the topmost entry of their layers. -/
theorem map_topmost_stack {α : Type} {entry : Layer → Option α} {f : Scope → Option α}
    (hf : ∀ s, entry s.layer = f s) (c : Context) :
    (c.stack.topmost entry).map Prod.snd = c.scopes.findSome? f := by
  cases hfound : c.scopes.findSome? f with
  | none =>
    rw [topmost_stack_eq_none fun s hs => (hf s).trans (List.findSome?_eq_none_iff.mp hfound s hs)]
    rfl
  | some a =>
    obtain ⟨before, s, after, hc, hs, hbefore⟩ := List.findSome?_eq_some_iff.mp hfound
    rw [topmost_stack hc (fun r hr => (hf r).trans (hbefore r hr)) ((hf s).trans hs)]
    rfl

/-- There is no such scope, or it is the global one. -/
theorem popTo_eq_self {index : Nat} (h : index = 0 ∨ c.depth ≤ index) : c.popTo index = c := by
  unfold popTo
  split
  · rfl
  · rename_i hindex
    rw [Nat.sub_eq_zero_of_le (h.resolve_left hindex), List.drop_zero]

/-- Counted from the global one, the scopes that stay are the first. -/
theorem reverse_scopes_popTo {index : Nat} (h : 0 < index) (hi : index < c.depth) :
    (c.popTo index).scopes.reverse = c.scopes.reverse.take index := by
  have hdepth : c.depth = c.inner.length + 1 := rfl
  have hscopes : (c.popTo index).scopes = c.scopes.drop (c.depth - index) := by
    rw [popTo, if_neg (Nat.ne_of_gt h)]
    exact (List.drop_append_of_le_length (by omega)).symm
  have hlength : c.scopes.length - (c.depth - index) = index := by
    rw [← depth_eq_length]
    omega
  rw [hscopes, List.reverse_drop, hlength]

theorem stack_popTo (c : Context) (index : Nat) : (c.popTo index).stack =
    if 0 < index ∧ index < c.stack.length then c.stack.take index else c.stack := by
  rw [length_stack]
  split
  · rename_i h
    rw [stack, reverse_scopes_popTo h.1 h.2, List.map_take, stack]
  · rename_i h
    rw [popTo_eq_self (by omega)]

theorem stack_perform (c : Context) (op : Operation) :
    (c.perform op).stack = c.stack.perform op := by
  cases op with
  | push kind => simp [perform, Stack.perform, stack, push, scopes]
  | leave id => exact c.stack_popTo id.toNat
  | declare name v declaredType => exact c.stack_declare name v declaredType
  | assign name v =>
    obtain ⟨before, s, b, after, hc, hbefore, hb, hc'⟩ | ⟨hnone, hc'⟩ :=
      c.scopes_assign_innermost name v
    · have htop : c.stack.binding? name = some (after.length, b) :=
        topmost_stack hc (fun r hr => (Table.lookup_toFinmap _ _).trans (hbefore r hr))
          ((Table.lookup_toFinmap _ _).trans hb)
      simp only [perform, Stack.perform, htop]
      exact stack_modify (·.bind name { b with value := v }) (·.bind name { b with value := v })
        hc hc' (s.layer_bind name _)
    · have htop : c.stack.binding? name = none :=
        topmost_stack_eq_none fun r hr => (Table.lookup_toFinmap _ _).trans (hnone r hr)
      simp only [perform, Stack.perform, htop, hc']
      exact c.stack_declare name v none
  | bindFunction name definition =>
    refine stack_modifyCurrent (fun s => ?_) c
    simp only [Scope.layer, Layer.define, Table.toFinmap_insert]
  | setExport v =>
    exact stack_modifyGlobal (·.bind exportName ⟨v, none⟩) (fun s => s.layer_bind exportName _) c
  | takeExport =>
    refine stack_modifyGlobal (fun s => { s with bindings := Table.erase s.bindings exportName })
      (fun s => ?_) c
    simp only [Scope.layer, Layer.unbind, Table.toFinmap_erase]
  | enterLoop | exitLoop | enterFunction | exitFunction => rfl

/-- The stack that the scopes make up after any operations depends on the stack before alone. -/
theorem stack_performAll (ops : List Operation) (c : Context) :
    (c.performAll ops).stack = c.stack.performAll ops := by
  induction ops generalizing c with
  | nil => rfl
  | cons op ops ih => exact (ih _).trans (congrArg (Stack.performAll · ops) (c.stack_perform op))

theorem stack_ofHost (host : HostValues) : (ofHost host).stack = Stack.ofHost host := by
  have hseed (s : Scope) : (host.foldl (fun s (name, v) => s.bind (seedName name) ⟨v, none⟩)
      s).layer = host.foldl (fun l (name, v) => l.bind (seedName name) ⟨v, none⟩) s.layer := by
    induction host generalizing s with
    | nil => rfl
    | cons entry host ih =>
      rw [List.foldl_cons, ih, Scope.layer_bind]
      rfl
  exact congrArg ([·]) (hseed (.empty .global))

/-! ## Looking up -/

/-- What can be looked up in a context is the topmost entry. -/
structure Shows (c : Context) (s : Stack) : Prop where
  binding? : ∀ name, c.binding? name = (s.binding? name).map Prod.snd
  lookUp : ∀ name, c.lookUp name = s.lookUp name
  function? : ∀ name, c.function? name = s.function? name
  visible : ∀ name, Table.get? c.visible name = s.lookUp name
  export? : c.takeExport.1 = s.export?

theorem binding?_eq_stack (c : Context) (name : String) :
    c.binding? name = (c.stack.binding? name).map Prod.snd :=
  (map_topmost_stack (fun s => Table.lookup_toFinmap s.bindings name) c).symm

theorem lookUp_eq_stack (c : Context) (name : String) : c.lookUp name = c.stack.lookUp name := by
  rw [lookUp, binding?_eq_stack, Option.map_map]
  rfl

theorem function?_eq_stack (c : Context) (name : String) :
    c.function? name = c.stack.function? name :=
  (map_topmost_stack (fun s => Table.lookup_toFinmap s.functions name) c).symm

theorem takeExport_eq_stack (c : Context) : c.takeExport.1 = c.stack.export? := by
  have hhead : c.stack.head? = some c.global.layer := by simp [stack, scopes]
  rw [Stack.export?, hhead, Option.bind_some]
  exact congrArg (Option.map Binding.value) (Table.lookup_toFinmap _ _).symm

/-- What scopes are like, whatever is done to them. -/
structure Regular (c : Context) : Prop where
  global : c.global.kind = .global
  ordered : ∀ s ∈ c.scopes, Table.Ordered s.bindings

namespace Regular

/-- One scope is another than before. -/
theorem of_scopes (h : c.Regular) {t : Scope} (hc : c.scopes = before ++ s :: after)
    (hc' : c'.scopes = before ++ t :: after) (hkind : t.kind = s.kind)
    (ht : Table.Ordered s.bindings → Table.Ordered t.bindings) : c'.Regular := by
  have hlast (d : Context) : (d.scopes.map Scope.kind).getLast? = some d.global.kind := by
    simp [scopes]
  have hglobal : some c'.global.kind = some c.global.kind := by
    rw [← hlast, ← hlast, hc, hc', List.map_append, List.map_cons, hkind, List.map_append,
      List.map_cons]
  have hordered := h.ordered
  rw [hc, List.forall_mem_append, List.forall_mem_cons] at hordered
  obtain ⟨hbefore, hs, hafter⟩ := hordered
  refine ⟨(Option.some.inj hglobal).trans h.global, fun r hr => ?_⟩
  rw [hc'] at hr
  exact List.forall_mem_append.mpr ⟨hbefore, List.forall_mem_cons.mpr ⟨ht hs, hafter⟩⟩ r hr

theorem modifyCurrent (h : c.Regular) {f : Scope → Scope} (hkind : ∀ s, (f s).kind = s.kind)
    (hf : ∀ s, Table.Ordered s.bindings → Table.Ordered (f s).bindings) :
    (c.modifyCurrent f).Regular := by
  obtain ⟨s, outer, hc, hc'⟩ := c.scopes_eq_current f
  exact h.of_scopes hc hc' (hkind s) (hf s)

theorem declare (h : c.Regular) (name : String) (v : Value) (declaredType : Option String) :
    (c.declare name v declaredType).Regular :=
  h.modifyCurrent (fun _ => rfl) fun _ hs => hs.insert name _

theorem perform (h : c.Regular) (op : Operation) : (c.perform op).Regular := by
  cases op with
  | push kind => exact ⟨h.global, List.forall_mem_cons.mpr ⟨.nil, h.ordered⟩⟩
  | leave id =>
    refine ⟨?_, fun s hs => h.ordered s (mem_scopes_of_popTo hs)⟩
    have hglobal : (c.popTo id.toNat).global = c.global := by unfold popTo; split <;> rfl
    exact (congrArg Scope.kind hglobal).trans h.global
  | declare name v declaredType => exact h.declare name v declaredType
  | assign name v =>
    obtain ⟨before, s, b, after, hc, -, -, hc'⟩ | ⟨-, hc'⟩ := c.scopes_assign name v
    · exact h.of_scopes hc hc' rfl fun hs => hs.insert name _
    · exact (congrArg Regular hc').mpr (h.declare name v none)
  | bindFunction name definition =>
    show (c.bindFunction name definition).Regular
    exact h.modifyCurrent (fun _ => rfl) fun _ hs => hs
  | setExport => exact h.of_scopes c.scopes_eq_global rfl rfl fun hs => hs.insert _ _
  | takeExport => exact h.of_scopes c.scopes_eq_global rfl rfl fun hs => hs.erase _
  | enterLoop | exitLoop | enterFunction | exitFunction => exact ⟨h.global, h.ordered⟩

theorem performAll (h : c.Regular) (ops : List Operation) : (c.performAll ops).Regular := by
  induction ops generalizing c with
  | nil => exact h
  | cons op ops ih => exact ih (h.perform op)

end Regular

theorem regular_ofHost (host : HostValues) : (ofHost host).Regular := by
  have hglobal : (ofHost host).global.kind = .global ∧
      Table.Ordered (ofHost host).global.bindings :=
    List.foldlRecOn (motive := fun s : Scope => s.kind = .global ∧ Table.Ordered s.bindings) host _
      ⟨rfl, .nil⟩ fun _ hs _ _ => ⟨hs.1, hs.2.insert _ _⟩
  exact ⟨hglobal.1, List.forall_mem_singleton.mpr hglobal.2⟩

/-- The table of all names in sight has of each the value that is looked up. -/
theorem get?_visible (h : c.Regular) (name : String) :
    Table.get? c.visible name = c.lookUp name := by
  have hordered := h.ordered
  rw [visible, lookUp, binding?]
  generalize c.scopes = scopes at hordered
  induction scopes with
  | nil => rfl
  | cons s rest ih =>
    obtain ⟨hs, hrest⟩ := List.forall_mem_cons.mp hordered
    rw [List.foldr_cons, hs.get?_foldl_insert Binding.value, ih hrest, List.findSome?_cons]
    cases Table.get? s.bindings name <;> rfl

theorem Regular.shows (h : c.Regular) : c.Shows c.stack where
  binding? := c.binding?_eq_stack
  lookUp := c.lookUp_eq_stack
  function? := c.function?_eq_stack
  visible name := (get?_visible h name).trans (c.lookUp_eq_stack name)
  export? := c.takeExport_eq_stack

end Context

end PipelineScript
