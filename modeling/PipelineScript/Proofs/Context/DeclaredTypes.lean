import PipelineScript.Proofs.Context.Bindings

/-! # Declared types

A binding keeps the type that its name was declared with. What each operation on a context does to
the agreement of values with their types. All but one keep it; an assignment keeps it if and only if
the name was declared with a type of the new value (`typed_assign_iff`). -/

namespace PipelineScript

/-- The value is not of another type than the declared one. -/
def Binding.Typed (b : Binding) : Prop :=
  ∀ t, b.declaredType = some t → b.value.matchesType? t ≠ some false

def Scope.Typed (s : Scope) : Prop :=
  ∀ name b, Table.get? s.bindings name = some b → b.Typed

theorem Scope.Typed.bind {s : Scope} (h : s.Typed) (name : String) {b : Binding} (hb : b.Typed) :
    (s.bind name b).Typed := Scope.AllBound.bind (P := Binding.Typed) h name hb

namespace Context

/-- All live bindings agree with their declared types. -/
def Typed (c : Context) : Prop := ∀ s ∈ c.scopes, s.Typed

/-- The name may be given the value, as far as its declared type goes. -/
def Admits (c : Context) (name : String) (v : Value) : Prop :=
  ∀ b t, c.binding? name = some b → b.declaredType = some t → v.matchesType? t ≠ some false

variable {c : Context}

theorem Typed.push (h : c.Typed) (kind : ScopeKind) : (c.push kind).Typed :=
  AllBound.push (P := Binding.Typed) h kind

theorem Typed.popTo (h : c.Typed) (index : Nat) : (c.popTo index).Typed :=
  AllBound.popTo (P := Binding.Typed) h index

theorem Typed.declare (h : c.Typed) (name : String) {v : Value} {declaredType : Option String}
    (hv : ∀ t, declaredType = some t → v.matchesType? t ≠ some false) :
    (c.declare name v declaredType).Typed :=
  AllBound.declare (P := Binding.Typed) h name hv

theorem Typed.declare_untyped (h : c.Typed) (name : String) (v : Value) :
    (c.declare name v none).Typed := h.declare name (by simp)

theorem Typed.setExport (h : c.Typed) (v : Value) : (c.setExport v).Typed :=
  AllBound.setExport (P := Binding.Typed) h fun _ ht => by cases ht

theorem Typed.hoist (h : c.Typed) (nodes : List Statement) :
    (nodes.foldl Run.bindDefinition c).Typed :=
  AllBound.hoist (P := Binding.Typed) h nodes

theorem Typed.bindParams (h : c.Typed) (params : List String) (args : List Value) :
    (Run.bindParams params args c).Typed :=
  AllBound.bindParams (P := Binding.Typed) h params fun _ _ _ ht => by cases ht

/-- A host declares no types. -/
theorem typed_ofHost (host : HostValues) : (ofHost host).Typed :=
  allBound_ofHost (P := Binding.Typed) fun _ _ _ ht => by cases ht

/-- An assignment keeps the declared type of the name it finds. -/
theorem typed_assign_iff (h : c.Typed) (name : String) (v : Value) :
    (c.assign name v).Typed ↔ c.Admits name v := by
  obtain ⟨before, s, b, after, hc, hb, -, hc'⟩ | ⟨hb, hc'⟩ := c.scopes_assign name v
  · constructor
    · intro ht b' t hb' hbt
      rw [hb] at hb'; cases hb'
      have hs : (s.bind name { b with value := v }).Typed := ht _ (by rw [hc']; simp)
      exact hs name { b with value := v } (by simp [Scope.bind, Table.get?_insert]) t hbt
    · intro ha t ht
      have hs : s.Typed := h s (by simp [hc])
      rw [hc'] at ht
      obtain ht | ht := List.mem_append.mp ht
      · exact h t (by simp [hc, ht])
      obtain rfl | ht := List.mem_cons.mp ht
      · exact hs.bind name fun t hbt => ha b t hb hbt
      · exact h t (by simp [hc, ht])
  · rw [hc']
    refine ⟨fun _ b t hb' => ?_, fun _ => h.declare_untyped name v⟩
    rw [hb] at hb'; cases hb'

end Context

end PipelineScript
