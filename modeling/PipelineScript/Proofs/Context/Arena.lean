import Mathlib
import PipelineScript.Proofs.Context.Stack

/-! # Scopes in an arena

The scopes of a context can also be kept in one row, the global one first, each with the handle of
the scope around it. A handle is a number of 32 bits. It may be kept when its scope is long gone,
and the scopes that a name is looked up in are found by going from handle to handle. Main
statement: `arena_is_stack`. Whatever is done to such a row it is laid out as the context is, so the
handles never lead astray, and both show what a stack of finite maps holds. -/

namespace PipelineScript

structure Slot where
  /-- The handle of the scope around this one. -/
  parent : Option UInt32
  scope : Scope

structure Arena where
  slots : List Slot
  current : UInt32
  loopDepth : Nat
  callDepth : Nat

/-- A new value for a name, if the scope binds it. -/
def Scope.revalue (s : Scope) (name : String) (v : Value) : Scope :=
  match Table.get? s.bindings name with
  | some b => s.bind name { b with value := v }
  | none => s

namespace Arena

/-! ## Operations

What follows a handle has no result if there is no such scope. -/

def ofHost (host : HostValues) : Arena := ⟨[⟨none, (Context.ofHost host).global⟩], 0, 0, 0⟩

def slot? (a : Arena) (id : UInt32) : Option Slot := a.slots[id.toNat]?

def push (a : Arena) (kind : ScopeKind) : Arena :=
  { a with
    slots := a.slots ++ [⟨some a.current, .empty kind⟩]
    current := .ofNat a.slots.length }

/-- A handle of no scope is ignored, and so is that of the global one. -/
def leave (a : Arena) (id : UInt32) : Option Arena :=
  if id = 0 ∨ a.slots.length ≤ id.toNat then some a
  else do
    let slot ← a.slot? id
    return { a with slots := a.slots.take id.toNat, current := slot.parent.getD 0 }

def modify (a : Arena) (id : UInt32) (f : Scope → Scope) : Option Arena := do
  let _ ← a.slot? id
  return { a with slots := a.slots.modify id.toNat fun s => { s with scope := f s.scope } }

/-- The scopes from that of a handle outward, if there are no more than so many. -/
def walk (a : Arena) : Nat → UInt32 → Option (List (UInt32 × Scope))
  | 0, _ => none
  | steps + 1, id => do
    let slot ← a.slot? id
    match slot.parent with
    | none => return [(id, slot.scope)]
    | some parent => return (id, slot.scope) :: (← a.walk steps parent)

/-- The scopes from the current one outward. With more steps than scopes there is no end to them. -/
def chain (a : Arena) : Option (List (UInt32 × Scope)) := a.walk a.slots.length a.current

def declare (a : Arena) (name : String) (v : Value) (declaredType : Option String) :
    Option Arena := a.modify a.current (·.bind name ⟨v, declaredType⟩)

def assign (a : Arena) (name : String) (v : Value) : Option Arena := do
  match (← a.chain).find? fun place => Table.has place.2.bindings name with
  | some (id, _) => a.modify id (·.revalue name v)
  | none => a.declare name v none

def perform (a : Arena) : Context.Operation → Option Arena
  | .push kind => some (a.push kind)
  | .leave id => a.leave id
  | .declare name v declaredType => a.declare name v declaredType
  | .assign name v => a.assign name v
  | .bindFunction name definition =>
    a.modify a.current fun s => { s with functions := Table.insert s.functions name definition }
  | .setExport v => a.modify 0 (·.bind Context.exportName ⟨v, none⟩)
  | .takeExport =>
    a.modify 0 fun s => { s with bindings := Table.erase s.bindings Context.exportName }
  | .enterLoop => some { a with loopDepth := a.loopDepth + 1 }
  | .exitLoop => some { a with loopDepth := a.loopDepth - 1 }
  | .enterFunction => some { a with callDepth := a.callDepth + 1, loopDepth := 0 }
  | .exitFunction loopDepth => some { a with callDepth := a.callDepth - 1, loopDepth }

def performAll (a : Arena) (ops : List Context.Operation) : Option Arena := ops.foldlM perform a

def binding? (a : Arena) (name : String) : Option (Option Binding) := do
  return (← a.chain).findSome? fun place => Table.get? place.2.bindings name

def lookUp (a : Arena) (name : String) : Option (Option Value) := do
  return (← a.binding? name).map Binding.value

def function? (a : Arena) (name : String) : Option (Option Statement) := do
  return (← a.chain).findSome? fun place => Table.get? place.2.functions name

/-- All names in sight with their values. -/
def flatten (a : Arena) : Option (Table Value) := do
  return (← a.chain).foldr (fun place t =>
    place.2.bindings.foldl (fun t (name, b) => Table.insert t name b.value) t) []

def export? (a : Arena) : Option (Option Value) := do
  let slot ← a.slot? 0
  return (Table.get? slot.scope.bindings Context.exportName).map Binding.value

/-- The layers of the scopes. -/
def stack (a : Arena) : Stack := a.slots.map (·.scope.layer)

/-- Every walk comes to an end, and what is found on it is the topmost entry. -/
structure Shows (a : Arena) (s : Stack) : Prop where
  stack : a.stack = s
  binding? : ∀ name, a.binding? name = some ((s.binding? name).map Prod.snd)
  lookUp : ∀ name, a.lookUp name = some (s.lookUp name)
  function? : ∀ name, a.function? name = some (s.function? name)
  flatten : ∃ t, a.flatten = some t ∧ ∀ name, Table.get? t name = s.lookUp name
  export? : a.export? = some s.export?

/-- Every scope has the one before it around it, and the last one is the current one. -/
structure Linked (a : Arena) : Prop where
  global : ∃ slot, a.slots[0]? = some slot ∧ slot.parent = none ∧ slot.scope.kind = .global
  parents : ∀ i slot, 0 < i → a.slots[i]? = some slot →
    ∃ parent, slot.parent = some parent ∧ parent.toNat = i - 1
  current : a.current.toNat + 1 = a.slots.length

/-! ## The layout of a context -/

def parentOf : Nat → Option UInt32
  | 0 => none
  | i + 1 => some (.ofNat i)

/-- Slots for scopes, the global one first. -/
def layOut (scopes : List Scope) : List Slot := scopes.mapIdx fun i s => ⟨parentOf i, s⟩

@[simp] theorem length_layOut (scopes : List Scope) : (layOut scopes).length = scopes.length :=
  List.length_mapIdx

@[simp] theorem getElem?_layOut (scopes : List Scope) (i : Nat) :
    (layOut scopes)[i]? = scopes[i]?.map (⟨parentOf i, ·⟩) := List.getElem?_mapIdx

theorem layOut_concat (scopes : List Scope) (s : Scope) :
    layOut (scopes ++ [s]) = layOut scopes ++ [⟨parentOf scopes.length, s⟩] := List.mapIdx_concat

theorem layOut_take (scopes : List Scope) (n : Nat) :
    layOut (scopes.take n) = (layOut scopes).take n := by
  refine List.ext_getElem? fun i => ?_
  simp only [getElem?_layOut, List.getElem?_take]
  split <;> rfl

theorem layOut_modify (scopes : List Scope) (n : Nat) (f : Scope → Scope) :
    layOut (scopes.modify n f) =
      (layOut scopes).modify n fun s => { s with scope := f s.scope } := by
  refine List.ext_getElem? fun i => ?_
  simp only [getElem?_layOut, List.getElem?_modify]
  cases scopes[i]? with
  | none => rfl
  | some s => by_cases h : n = i <;> simp [h]

/-- The scopes, given from the inside outward, with their handles. -/
def numbered : List Scope → List (UInt32 × Scope)
  | [] => []
  | s :: outer => (.ofNat outer.length, s) :: numbered outer

theorem map_snd_numbered (scopes : List Scope) : (numbered scopes).map Prod.snd = scopes := by
  induction scopes with
  | nil => rfl
  | cons s outer ih => rw [numbered, List.map_cons, ih]

theorem find?_numbered (p : Scope → Bool) {before after : List Scope} {s : Scope}
    (hbefore : ∀ r ∈ before, p r = false) (hs : p s = true) :
    (numbered (before ++ s :: after)).find? (fun place => p place.2) =
      some (.ofNat after.length, s) := by
  induction before with
  | nil => exact List.find?_cons_of_pos hs
  | cons r before ih =>
    obtain ⟨hr, hbefore⟩ := List.forall_mem_cons.mp hbefore
    rw [List.cons_append, numbered, List.find?_cons_of_neg (by simp [hr]), ih hbefore]

theorem find?_numbered_eq_none (p : Scope → Bool) {scopes : List Scope}
    (h : ∀ r ∈ scopes, p r = false) : (numbered scopes).find? (fun place => p place.2) = none := by
  refine List.find?_eq_none.mpr fun (id, s) hs => ?_
  have hmem : s ∈ scopes := map_snd_numbered scopes ▸ List.mem_map_of_mem hs
  simp [h s hmem]

end Arena

namespace Context

open Arena

variable {c c' : Context} {before after : List Scope} {s : Scope}

def arena (c : Context) : Arena :=
  ⟨layOut c.scopes.reverse, .ofNat c.inner.length, c.loopDepth, c.callDepth⟩

@[simp] theorem length_slots (c : Context) : c.arena.slots.length = c.depth := by
  rw [arena, length_layOut, List.length_reverse, depth_eq_length]

/-- There are fewer scopes around a scope than there are scopes. -/
theorem length_lt_depth (hc : c.scopes = before ++ s :: after) : after.length < c.depth := by
  rw [depth_eq_length, hc, List.length_append, List.length_cons]
  omega

theorem slot?_arena (hc : c.scopes = before ++ s :: after) (hfew : after.length < UInt32.size) :
    c.arena.slot? (.ofNat after.length) = some ⟨parentOf after.length, s⟩ := by
  rw [slot?, arena, UInt32.toNat_ofNat_of_lt' hfew, getElem?_layOut, hc]
  simp

/-- A change of one scope is a change of its slot. -/
theorem modify_arena (f : Scope → Scope) (hc : c.scopes = before ++ s :: after)
    (hc' : c'.scopes = before ++ f s :: after) (hfew : after.length < UInt32.size)
    (hloop : c'.loopDepth = c.loopDepth) (hcall : c'.callDepth = c.callDepth) :
    c.arena.modify (.ofNat after.length) f = some c'.arena := by
  have hdepth : c'.inner.length = c.inner.length := by
    have hlength : c'.scopes.length = c.scopes.length := by simp [hc, hc']
    simpa [scopes] using hlength
  have hreverse : c'.scopes.reverse = c.scopes.reverse.modify after.length f := by
    have hafter : after.length = after.reverse.length := List.length_reverse.symm
    rw [hc, hc', List.reverse_append, List.reverse_append, List.reverse_cons, List.reverse_cons,
      List.append_assoc, List.append_assoc, hafter]
    exact (modify_length_append f after.reverse before.reverse s).symm
  rw [Arena.modify, slot?_arena hc hfew, Option.bind_eq_bind, Option.bind_some, arena, arena,
    hdepth, hloop, hcall, hreverse, layOut_modify, UInt32.toNat_ofNat_of_lt' hfew]
  rfl

/-- From any scope the handles lead through all scopes around it. -/
theorem walk_arena (hfew : c.depth < UInt32.size) (hc : c.scopes = before ++ s :: after)
    {steps : Nat} (hsteps : after.length < steps) :
    c.arena.walk steps (.ofNat after.length) = some (numbered (s :: after)) := by
  induction after generalizing before s steps with
  | nil =>
    obtain ⟨steps, rfl⟩ := Nat.exists_eq_add_one_of_ne_zero (Nat.ne_zero_of_lt hsteps)
    rw [walk, slot?_arena hc (Nat.two_pow_pos 32)]
    rfl
  | cons r after ih =>
    obtain ⟨steps, rfl⟩ := Nat.exists_eq_add_one_of_ne_zero (Nat.ne_zero_of_lt hsteps)
    have hlength : (r :: after).length < UInt32.size := (length_lt_depth hc).trans hfew
    have hr : c.scopes = (before ++ [s]) ++ r :: after := by rw [hc, List.append_assoc]; rfl
    rw [walk, slot?_arena hc hlength]
    show (c.arena.walk steps (.ofNat after.length) >>= fun rest =>
      some ((UInt32.ofNat (r :: after).length, s) :: rest)) = _
    rw [ih hr (Nat.lt_of_succ_lt_succ hsteps)]
    rfl

theorem current_arena {outer : List Scope} (hc : c.scopes = [] ++ s :: outer) :
    c.arena.current = .ofNat outer.length := by
  have hlength : c.inner.length = outer.length := by
    simpa [scopes] using congrArg List.length hc
  rw [arena, hlength]

theorem chain_arena (hfew : c.depth < UInt32.size) :
    c.arena.chain = some (numbered c.scopes) := by
  obtain ⟨s, outer, hc, -⟩ := c.scopes_eq_current id
  rw [chain, current_arena hc, length_slots, walk_arena hfew hc (length_lt_depth hc), hc]
  rfl

/-! ## Operations on the layout -/

theorem modifyCurrent_arena (f : Scope → Scope) (hfew : c.depth < UInt32.size) :
    c.arena.modify c.arena.current f = some (c.modifyCurrent f).arena := by
  obtain ⟨s, outer, hc, hc'⟩ := c.scopes_eq_current f
  rw [current_arena hc]
  exact modify_arena f hc hc' ((length_lt_depth hc).trans hfew) (c.loopDepth_modifyCurrent f)
    (c.callDepth_modifyCurrent f)

theorem modifyGlobal_arena (f : Scope → Scope) (c : Context) :
    c.arena.modify 0 f = some { c with global := f c.global }.arena :=
  modify_arena f c.scopes_eq_global rfl (Nat.two_pow_pos 32) rfl rfl

theorem slot?_arena_zero (c : Context) : c.arena.slot? 0 = some ⟨none, c.global⟩ :=
  slot?_arena c.scopes_eq_global (Nat.two_pow_pos 32)

theorem push_arena (c : Context) (kind : ScopeKind) :
    c.arena.push kind = (c.push kind).arena := by
  have hscopes : (c.push kind).scopes.reverse = c.scopes.reverse ++ [.empty kind] :=
    List.reverse_cons
  have hlength : c.scopes.reverse.length = c.inner.length + 1 := by simp [scopes]
  rw [Arena.push, arena, arena, hscopes, layOut_concat, length_layOut, hlength]
  rfl

theorem leave_arena (c : Context) (id : UInt32) :
    c.arena.leave id = some (c.popTo id.toNat).arena := by
  rw [leave, length_slots]
  split
  · rename_i h
    rw [popTo_eq_self (h.imp_left (congrArg UInt32.toNat))]
  · rename_i h
    obtain ⟨hid, hdepth⟩ := not_or.mp h
    have hpos : 0 < id.toNat := Nat.pos_of_ne_zero fun h => hid (UInt32.toNat_inj.mp h)
    have hindex : id.toNat < c.depth := Nat.lt_of_not_le hdepth
    obtain ⟨s, hs⟩ := c.scope?_isSome hindex
    have hslot : c.arena.slot? id = some ⟨parentOf id.toNat, s⟩ := by
      rw [slot?, arena, getElem?_layOut, show c.scopes.reverse[id.toNat]? = some s from hs]
      rfl
    have hparent : parentOf id.toNat = some (.ofNat (c.popTo id.toNat).inner.length) := by
      have hleft : (c.popTo id.toNat).inner.length + 1 = id.toNat :=
        c.depth_popTo hpos (Nat.le_of_lt hindex)
      rw [← hleft, parentOf, hleft]
    rw [hslot, hparent, Option.bind_eq_bind, Option.bind_some, arena, arena,
      reverse_scopes_popTo hpos hindex, layOut_take, loopDepth_popTo, callDepth_popTo]
    rfl

theorem assign_arena (hfew : c.depth < UInt32.size) (name : String) (v : Value) :
    c.arena.assign name v = some (c.assign name v).arena := by
  have hhas {s : Scope} {b : Option Binding} (h : Table.get? s.bindings name = b) :
      Table.has s.bindings name = b.isSome := congrArg Option.isSome h
  rw [Arena.assign, chain_arena hfew, Option.bind_eq_bind, Option.bind_some]
  obtain ⟨before, s, b, after, hc, hbefore, hb, hc'⟩ | ⟨hnone, hc'⟩ :=
    c.scopes_assign_innermost name v
  · have hrevalue : s.revalue name v = s.bind name { b with value := v } := by
      rw [Scope.revalue, hb]
    rw [← hrevalue] at hc'
    obtain ⟨hloop, hcall⟩ := c.counters_assign name v
    have hfind : (numbered c.scopes).find? (fun place => Table.has place.2.bindings name) =
        some (.ofNat after.length, s) := by
      rw [hc]
      exact find?_numbered (fun s => Table.has s.bindings name)
        (fun r hr => hhas (hbefore r hr)) (hhas hb)
    rw [hfind]
    exact modify_arena (·.revalue name v) hc hc' ((length_lt_depth hc).trans hfew) hloop hcall
  · have hfind : (numbered c.scopes).find? (fun place => Table.has place.2.bindings name) = none :=
      find?_numbered_eq_none (fun s => Table.has s.bindings name) fun r hr => hhas (hnone r hr)
    rw [hfind, hc']
    exact modifyCurrent_arena (·.bind name ⟨v, none⟩) hfew

/-- Whatever is done to the row of a context is done to the context. -/
theorem perform_arena (hfew : c.depth < UInt32.size) (op : Operation) :
    c.arena.perform op = some (c.perform op).arena := by
  cases op with
  | push kind => exact congrArg some (c.push_arena kind)
  | leave id => exact c.leave_arena id
  | declare name v declaredType => exact modifyCurrent_arena (·.bind name ⟨v, declaredType⟩) hfew
  | assign name v => exact assign_arena hfew name v
  | bindFunction name definition =>
    exact modifyCurrent_arena
      (fun s => { s with functions := Table.insert s.functions name definition }) hfew
  | setExport v => exact modifyGlobal_arena (·.bind exportName ⟨v, none⟩) c
  | takeExport =>
    exact modifyGlobal_arena
      (fun s => { s with bindings := Table.erase s.bindings exportName }) c
  | enterLoop | exitLoop | enterFunction | exitFunction => rfl

theorem performAll_arena (ops : List Operation)
    (hfew : ∀ before, before <+: ops → (c.performAll before).depth < UInt32.size) :
    c.arena.performAll ops = some (c.performAll ops).arena := by
  induction ops generalizing c with
  | nil => rfl
  | cons op ops ih =>
    have hrest : ∀ before, before <+: ops →
        ((c.perform op).performAll before).depth < UInt32.size := fun before hb =>
      hfew (op :: before) (List.cons_prefix_cons.mpr ⟨rfl, hb⟩)
    have hnow : c.depth < UInt32.size := hfew [] List.nil_prefix
    rw [Arena.performAll, List.foldlM_cons, perform_arena hnow]
    exact ih hrest

/-! ## What the layout shows -/

theorem findSome?_arena {α : Type} (f : Scope → Option α) (scopes : List Scope) :
    (numbered scopes).findSome? (fun place => f place.2) = scopes.findSome? f := by
  conv_rhs => rw [← map_snd_numbered scopes, List.findSome?_map]
  rfl

theorem binding?_arena (hfew : c.depth < UInt32.size) (name : String) :
    c.arena.binding? name = some (c.binding? name) := by
  rw [Arena.binding?, chain_arena hfew]
  exact congrArg some (findSome?_arena (fun s => Table.get? s.bindings name) c.scopes)

theorem lookUp_arena (hfew : c.depth < UInt32.size) (name : String) :
    c.arena.lookUp name = some (c.lookUp name) := by
  rw [Arena.lookUp, binding?_arena hfew]
  rfl

theorem function?_arena (hfew : c.depth < UInt32.size) (name : String) :
    c.arena.function? name = some (c.function? name) := by
  rw [Arena.function?, chain_arena hfew]
  exact congrArg some (findSome?_arena (fun s => Table.get? s.functions name) c.scopes)

theorem flatten_arena (hfew : c.depth < UInt32.size) : c.arena.flatten = some c.visible := by
  have hscopes := map_snd_numbered c.scopes
  rw [flatten, chain_arena hfew, visible]
  conv_rhs => rw [← hscopes, List.foldr_map]
  rfl

theorem export?_arena (c : Context) : c.arena.export? = some c.takeExport.1 := by
  rw [Arena.export?, slot?_arena_zero]
  rfl

theorem stack_arena (c : Context) : c.arena.stack = c.stack := by
  refine List.ext_getElem? fun i => ?_
  simp only [Arena.stack, arena, stack, List.getElem?_map, getElem?_layOut, Option.map_map]
  rfl

theorem parent?_arena (hfew : c.depth < UInt32.size) (i : Nat) :
    (c.arena.slots[i]?.bind Slot.parent).map UInt32.toNat = c.parent? i := by
  rw [arena, getElem?_layOut, parent?, depth_eq_length]
  rw [depth_eq_length] at hfew
  cases hs : c.scopes.reverse[i]? with
  | none =>
    have hlength : c.scopes.reverse.length ≤ i := List.getElem?_eq_none_iff.mp hs
    rw [List.length_reverse] at hlength
    rw [if_neg (by omega)]
    rfl
  | some s =>
    obtain ⟨hlength, -⟩ := List.getElem?_eq_some_iff.mp hs
    rw [List.length_reverse] at hlength
    cases i with
    | zero => rfl
    | succ i =>
      rw [if_pos ⟨Nat.succ_pos i, hlength⟩]
      exact congrArg some (UInt32.toNat_ofNat_of_lt' (by omega))

theorem linked_arena (h : c.Regular) (hfew : c.depth < UInt32.size) : c.arena.Linked := by
  refine ⟨⟨⟨none, c.global⟩, c.slot?_arena_zero, rfl, h.global⟩,
    fun i slot hi hslot => ?_, ?_⟩
  · have hlength : i < c.depth := by
      rw [← length_slots]
      exact (List.getElem?_eq_some_iff.mp hslot).choose
    have hparent := parent?_arena hfew i
    rw [hslot, parent?, if_pos ⟨hi, hlength⟩] at hparent
    exact Option.map_eq_some_iff.mp hparent
  · rw [length_slots]
    exact congrArg (· + 1) (UInt32.toNat_ofNat_of_lt' (Nat.lt_of_succ_lt hfew))

theorem Shows.arena {s : Stack} (h : c.Shows s) (hs : c.stack = s) (hfew : c.depth < UInt32.size) :
    c.arena.Shows s where
  stack := c.stack_arena.trans hs
  binding? name := (binding?_arena hfew name).trans (congrArg some (h.binding? name))
  lookUp name := (lookUp_arena hfew name).trans (congrArg some (h.lookUp name))
  function? name := (function?_arena hfew name).trans (congrArg some (h.function? name))
  flatten := ⟨c.visible, flatten_arena hfew, h.visible⟩
  export? := c.export?_arena.trans (congrArg some h.export?)

end Context

namespace Arena

/-! ## Main statement -/

/-- Whatever is done to the scopes of a run, as long as there are fewer of them than handles. No
handle leads out of the row, the row is linked and laid out as the context is, and both show the
stack of maps to which the same was done. -/
theorem arena_is_stack (host : HostValues) (ops : List Context.Operation)
    (hfew : ∀ before, before <+: ops →
      ((Stack.ofHost host).performAll before).length < UInt32.size) :
    let c := (Context.ofHost host).performAll ops
    let s := (Stack.ofHost host).performAll ops
    (ofHost host).performAll ops = some c.arena ∧ c.arena.Linked ∧ c.arena.Shows s ∧ c.Shows s ∧
      ∀ i, (c.arena.slots[i]?.bind Slot.parent).map UInt32.toNat = c.parent? i := by
  intro c s
  have hstack (before : List Context.Operation) :
      ((Context.ofHost host).performAll before).stack = (Stack.ofHost host).performAll before := by
    rw [Context.stack_performAll, Context.stack_ofHost]
  have hdepth : ∀ before, before <+: ops →
      ((Context.ofHost host).performAll before).depth < UInt32.size := fun before hb => by
    rw [← Context.length_stack, hstack]
    exact hfew before hb
  have hc : c.depth < UInt32.size := hdepth ops List.prefix_rfl
  have hregular : c.Regular := (Context.regular_ofHost host).performAll ops
  have hs : c.stack = s := hstack ops
  have hshows : c.Shows s := by
    rw [← hs]
    exact hregular.shows
  exact ⟨Context.performAll_arena ops hdepth, Context.linked_arena hregular hc,
    hshows.arena hs hc, hshows, Context.parent?_arena hc⟩

/-- Handle 2 is left again when its scope is gone, and handle 1 is that of another scope by then. -/
theorem arena_is_stack_staleHandle :
    let ops : List Context.Operation := [.declare "x" (.int 1) (some "int"), .push .block,
      .push .function, .leave 1, .push .block, .declare "y" (.int 2) none, .leave 2,
      .assign "x" (.int 3)]
    let c := (Context.ofHost []).performAll ops
    (∀ before, before <+: ops →
      ((Stack.ofHost []).performAll before).length < UInt32.size) ∧ c.arena.Linked ∧
      c.arena.binding? "x" = some (some ⟨.int 3, some "int"⟩) ∧
      c.arena.lookUp "y" = some (some (.int 2)) := by
  intro ops c
  have hfew : ∀ before, before <+: ops →
      ((Stack.ofHost []).performAll before).length < UInt32.size := fun before hb => by
    have hlength : before.length ≤ 8 := hb.length_le
    have hstack := Stack.length_performAll_le before (Stack.ofHost [])
    rw [show (Stack.ofHost []).length = 1 from rfl] at hstack
    exact Nat.lt_of_le_of_lt (hstack.trans (Nat.add_le_add_left hlength 1)) (by decide)
  obtain ⟨-, hlinked, hshows, hshown, -⟩ := arena_is_stack [] ops hfew
  refine ⟨hfew, hlinked, ?_, ?_⟩
  · rw [hshows.binding?, ← hshown.binding?]
    rfl
  · rw [hshows.lookUp, ← hshown.lookUp]
    rfl

end Arena

end PipelineScript
