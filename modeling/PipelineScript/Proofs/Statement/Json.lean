import Mathlib
import PipelineScript.Proofs.Json.Text
import PipelineScript.Proofs.Statement.Occurrences

/-! # Statements survive their JSON

What is read of a statement is found by name: the fields of its kind among the members of the
statement, no two of which go by one name, and the parts of a field in the same way. So each type
has its reader restore what its writer wrote, from the parts of statements up to whole trees, and
with the reader of the text before it as well. Main statement: `json_roundtrip`. -/

namespace PipelineScript

open Json (Has Restores)

/-! ## Parts of statements -/

theorem SourceExpr.restores (e : SourceExpr) : Restores SourceExpr.ofJson? e.toJson e := by
  intro j h
  obtain ⟨members, rfl, ⟨source, hsource, hs⟩, -⟩ := h.has (by simp)
  simp [SourceExpr.ofJson?, Json.record?, hsource, Restores.text _ _ hs]

theorem Invocation.restores (c : Invocation) : Restores Invocation.ofJson? c.toJson c := by
  intro j h
  obtain ⟨members, rfl, ⟨name, hname, hn⟩, ⟨args, hargs, ha⟩, -⟩ := h.has (by simp)
  simp [Invocation.ofJson?, Json.record?, hname, hargs, Restores.text _ _ hn,
    Restores.list (fun e _ => e.restores) _ ha]

theorem Source.restores (v : Source) : Restores Source.ofJson? v.toJson v := by
  intro j h
  cases v with
  | expr e =>
    obtain ⟨members, rfl, ⟨_, htag, ⟨⟩⟩, ⟨expr, hexpr, he⟩, -⟩ := h.has (by simp)
    simp [Source.ofJson?, Json.tagged?, Json.tag?, Json.record?, htag, hexpr, e.restores _ he]
  | run c =>
    obtain ⟨members, rfl, ⟨_, htag, ⟨⟩⟩, ⟨call, hcall, hc⟩, -⟩ := h.has (by simp)
    simp [Source.ofJson?, Json.tagged?, Json.tag?, Json.record?, htag, hcall, c.restores _ hc]
  | invoke c e =>
    obtain ⟨members, rfl, ⟨_, htag, ⟨⟩⟩, ⟨call, hcall, hc⟩, ⟨source, hsource, hs⟩, -⟩ :=
      h.has (by simp)
    simp [Source.ofJson?, Json.tagged?, Json.tag?, Json.record?, htag, hcall, hsource,
      c.restores _ hc, e.restores _ hs]

theorem Iterable.restores (v : Iterable) : Restores Iterable.ofJson? v.toJson v := by
  intro j h
  cases v with
  | range start stop inclusive =>
    obtain ⟨members, rfl, ⟨_, htag, ⟨⟩⟩, ⟨first, hfirst, hf⟩, ⟨last, hlast, hl⟩,
      ⟨through, hthrough, ht⟩, -⟩ := h.has (by simp)
    simp [Iterable.ofJson?, Json.tagged?, Json.tag?, Json.record?, htag, hfirst, hlast, hthrough,
      start.restores _ hf, stop.restores _ hl, Restores.bool _ _ ht]
  | each e =>
    obtain ⟨members, rfl, ⟨_, htag, ⟨⟩⟩, ⟨expr, hexpr, he⟩, -⟩ := h.has (by simp)
    simp [Iterable.ofJson?, Json.tagged?, Json.tag?, Json.record?, htag, hexpr, e.restores _ he]

theorem TaskEntry.restores (t : TaskEntry) : Restores TaskEntry.ofJson? t.toJson t := by
  intro j h
  obtain ⟨members, rfl, ⟨key, hkey, hk⟩, ⟨call, hcall, hc⟩, ⟨line, hline, hl⟩, -⟩ := h.has (by simp)
  simp [TaskEntry.ofJson?, Json.record?, hkey, hcall, hline, Restores.text _ _ hk,
    t.call.restores _ hc, Restores.nat _ _ hl]

/-! ## Kinds -/

theorem Kind.tag?_name (k : Kind) : Json.tag? Kind.names (.str k.name) = some k.name := by
  cases k <;> rfl

/-- The fields of a kind and its tag are enough, whatever other members there are. -/
theorem Kind.ofMembers?_eq {members : List (String × Json)} {k : Kind}
    (h : Has members (("t", .str k.name) :: k.fields)) : Kind.ofMembers? members = some k := by
  obtain ⟨⟨_, htag, ⟨⟩⟩, hfields⟩ := h
  rw [Kind.ofMembers?]
  simp only [htag, Option.bind_eq_bind, Option.bind_some, k.tag?_name]
  cases k <;> dsimp only [Kind.name]
  case importPath =>
    obtain ⟨⟨path, hpath, hp⟩, ⟨localName, hlocal, hl⟩, -⟩ := hfields
    simp [hpath, hlocal, Restores.text _ _ hp, Restores.text _ _ hl]
  case declare =>
    obtain ⟨⟨name, hname, hn⟩, ⟨declaredType, htype, ht⟩, ⟨value, hvalue, hv⟩, -⟩ := hfields
    simp [hname, htype, hvalue, Restores.text _ _ hn,
      Restores.optional rfl (fun s _ => .text s) ht,
      Restores.optional rfl (fun v _ => v.restores) hv]
  case assign v =>
    obtain ⟨⟨name, hname, hn⟩, ⟨value, hvalue, hv⟩, -⟩ := hfields
    simp [hname, hvalue, Restores.text _ _ hn, v.restores _ hv]
  case run c | call c =>
    obtain ⟨⟨call, hcall, hc⟩, -⟩ := hfields
    simp [hcall, c.restores _ hc]
  case taskBlock =>
    obtain ⟨⟨target, htarget, ht⟩, ⟨tasks, htasks, hts⟩, -⟩ := hfields
    simp [htarget, htasks, Restores.text _ _ ht, Restores.list (fun t _ => t.restores) _ hts]
  case exportValue e | echo e | case_ e =>
    obtain ⟨⟨value, hvalue, hv⟩, -⟩ := hfields
    simp [hvalue, e.restores _ hv]
  case branch e | whileLoop e =>
    obtain ⟨⟨condition, hcondition, hc⟩, -⟩ := hfields
    simp [hcondition, e.restores _ hc]
  case switch e =>
    obtain ⟨⟨subject, hsubject, hs⟩, -⟩ := hfields
    simp [hsubject, e.restores _ hs]
  case forLoop v =>
    obtain ⟨⟨name, hname, hn⟩, ⟨iterable, hiterable, hi⟩, -⟩ := hfields
    simp [hname, hiterable, Restores.text _ _ hn, v.restores _ hi]
  case returnValue =>
    obtain ⟨⟨value, hvalue, hv⟩, -⟩ := hfields
    simp [hvalue, Restores.optional rfl (fun e _ => e.restores) hv]
  case function =>
    obtain ⟨⟨name, hname, hn⟩, ⟨params, hparams, hp⟩, -⟩ := hfields
    simp [hname, hparams, Restores.text _ _ hn, Restores.list (fun s _ => .text s) _ hp]
  case conditional | otherwise | fallback | breakLoop | breakAll | continueLoop => rfl

theorem Shape.restores (s : Shape) : Restores Shape.ofJson? (.str s.name) s := by
  cases s <;> rintro _ ⟨⟩ <;> rfl

/-! ## Statements -/

namespace Statement

theorem listJson_eq (nodes : List Statement) : listJson nodes = nodes.map toJson := by
  induction nodes with
  | nil => rfl
  | cons s rest ih => rw [listJson, ih, List.map_cons]

theorem ofItems?_eq (items : List Json) : ofItems? items = items.mapM ofJson? := by
  induction items with
  | nil => rfl
  | cons j rest ih => rw [ofItems?, ih, List.mapM_cons]; rfl

theorem ofList?_eq (j : Json) : ofList? j = j.list? ofJson? := by
  cases j with
  | arr items => exact ofItems?_eq items
  | _ => rfl

theorem ofChildren?_eq (members : List (String × Json)) :
    ofChildren? members = match Table.get? members "children" with
      | none => some []
      | some j => ofList? j := by
  induction members with
  | nil => rfl
  | cons member rest ih =>
    obtain ⟨key, j⟩ := member
    rw [ofChildren?, Table.get?, ih]
    split <;> rfl

/-- The member that lists the children, unless there are none. -/
def childrenMember (s : Statement) : List (String × Json) :=
  match s.children with
  | [] => []
  | t :: rest => [("children", .arr ((t :: rest).map toJson))]

def members (s : Statement) : List (String × Json) :=
  (("t", .str s.kind.name) :: s.kind.fields) ++
    [("structure", .str s.shape.name), ("line", .int s.line)] ++ s.childrenMember

theorem toJson_eq (s : Statement) : s.toJson = .obj s.members := by
  obtain ⟨kind, shape, line, children⟩ := s
  rw [toJson, listJson_eq]
  cases children <;> rfl

/-- No field of any kind goes by the name of another member. -/
theorem nodup_members (s : Statement) : (s.members.map Prod.fst).Nodup := by
  obtain ⟨kind, shape, line, children⟩ := s
  cases kind <;> cases children <;> simp [members, childrenMember, Kind.fields]

theorem get?_children {s : Statement} (h : s.children = []) :
    Table.get? s.members "children" = none := by
  obtain ⟨kind, shape, line, children⟩ := s
  cases h
  cases kind <;> simp [members, childrenMember, Kind.fields, Table.get?]

theorem restores (s : Statement) : Restores ofJson? s.toJson s := by
  induction s using Statement.induct with
  | h s ih =>
    intro j hj
    rw [toJson_eq] at hj
    obtain ⟨members, rfl, hfields⟩ := hj.has s.nodup_members
    have hhas := Json.has_iff.mp hfields
    have hkind : Kind.ofMembers? members = some s.kind := Kind.ofMembers?_eq <|
      Json.has_iff.mpr fun field hfield =>
        hhas field (List.mem_append_left _ (List.mem_append_left _ hfield))
    obtain ⟨shape, hshape, hs⟩ :=
      hhas ("structure", .str s.shape.name) (by simp [Statement.members])
    obtain ⟨line, hline, hl⟩ := hhas ("line", .int s.line) (by simp [Statement.members])
    have hchildren : ofChildren? members = some s.children := by
      rw [ofChildren?_eq]
      cases hnodes : s.children with
      | nil => rw [hj.lacks (get?_children hnodes)]
      | cons t rest =>
        obtain ⟨children, hfound, hc⟩ := hhas ("children", .arr (s.children.map toJson))
          (by simp [Statement.members, childrenMember, hnodes])
        rw [hfound, ← hnodes]
        exact (ofList?_eq children).trans (Restores.list ih children hc)
    simp only [ofJson?, hkind, hshape, hline, hchildren, s.shape.restores _ hs,
      Restores.nat _ _ hl, Option.bind_eq_bind, Option.bind_some]
    cases s
    rfl

theorem restores_list (nodes : List Statement) : Restores ofList? (listToJson nodes) nodes := by
  intro j hj
  rw [listToJson, listJson_eq] at hj
  rw [ofList?_eq]
  exact Restores.list (fun s _ => s.restores) j hj

end Statement

/-! ## Text -/

namespace Json.Plain

theorem nat {depth n : Nat} (h : n < 2 ^ 64) : Plain depth (.int n) :=
  .int (by omega) (by exact_mod_cast h)

theorem list {α : Type} {toJson : α → Json} {as : List α} {depth : Nat}
    (h : ∀ a ∈ as, Plain depth (toJson a)) : Plain (depth + 1) (.arr (as.map toJson)) :=
  .arr (List.forall_mem_map.mpr h)

theorem orNull {α : Type} {toJson : α → Json} {depth : Nat} (h : ∀ a, Plain depth (toJson a))
    (a? : Option α) : Plain depth (jsonOrNull toJson a?) := by
  cases a? with
  | none => exact .null
  | some a => exact h a

end Json.Plain

open Json (Plain)

theorem SourceExpr.plain (e : SourceExpr) (depth : Nat) : Plain (depth + 1) e.toJson :=
  .obj (by simp) (by simp [Plain.str])

theorem Invocation.plain (c : Invocation) (depth : Nat) : Plain (depth + 3) c.toJson := by
  have hargs : Plain (depth + 2) (.arr (c.args.map SourceExpr.toJson)) :=
    .list fun e _ => e.plain depth
  exact .obj (by simp) (by simp [Plain.str, hargs])

theorem Source.plain (v : Source) (depth : Nat) : Plain (depth + 4) v.toJson := by
  cases v with
  | expr e => exact .obj (by simp) (by simp [Plain.str, e.plain])
  | run c => exact .obj (by simp) (by simp [Plain.str, c.plain])
  | invoke c e => exact .obj (by simp) (by simp [Plain.str, c.plain, e.plain])

theorem Iterable.plain (v : Iterable) (depth : Nat) : Plain (depth + 2) v.toJson := by
  cases v with
  | range start stop inclusive =>
    exact .obj (by simp) (by simp [Plain.str, Plain.bool, start.plain, stop.plain])
  | each e => exact .obj (by simp) (by simp [Plain.str, e.plain])

theorem TaskEntry.plain {t : TaskEntry} (h : t.line < 2 ^ 64) (depth : Nat) :
    Plain (depth + 4) t.toJson :=
  .obj (by simp) (by simp [Plain.str, t.call.plain, Plain.nat h])

namespace Statement

/-- The lines of a statement fit in 64 bits, those of the entries of a task block among them. -/
def LinesFit (s : Statement) : Prop :=
  s.line < 2 ^ 64 ∧ ∀ target entries, s.kind = .taskBlock target entries →
    ∀ t ∈ entries, t.line < 2 ^ 64

theorem plain_fields {s : Statement} (h : s.LinesFit) (depth : Nat) :
    ∀ field ∈ s.kind.fields, Plain (depth + 5) field.2 := by
  cases hk : s.kind with
  | taskBlock target entries =>
    have htasks : Plain (depth + 5) (.arr (entries.map TaskEntry.toJson)) :=
      .list fun t ht => t.plain (h.2 target entries hk t ht) depth
    simp [Kind.fields, Plain.str, htasks]
  | declare name declaredType value =>
    have htype : Plain (depth + 5) (jsonOrNull .str declaredType) := .orNull .str _
    have hvalue : Plain (depth + 5) (jsonOrNull Source.toJson value) :=
      .orNull (fun v => v.plain _) _
    simp [Kind.fields, Plain.str, htype, hvalue]
  | returnValue value =>
    have hvalue : Plain (depth + 5) (jsonOrNull SourceExpr.toJson value) :=
      .orNull (fun e => e.plain _) _
    simp [Kind.fields, hvalue]
  | function name params =>
    have hparams : Plain (depth + 5) (.arr (params.map .str)) := .list fun s _ => .str s
    simp [Kind.fields, Plain.str, hparams]
  | _ =>
    simp [Kind.fields, Plain.str, SourceExpr.plain, Invocation.plain, Source.plain, Iterable.plain]

theorem plain_toJson {s : Statement} {depth : Nat} (h : s.LinesFit)
    (hchildren : s.children ≠ [] → Plain (depth + 5) (listToJson s.children)) :
    Plain (depth + 6) s.toJson := by
  rw [toJson_eq]
  refine .obj s.nodup_members fun member hmember => ?_
  simp only [members, List.mem_append, List.mem_cons, List.not_mem_nil, or_false] at hmember
  obtain ((rfl | hfield) | rfl | rfl) | hmember := hmember
  · exact .str _
  · exact plain_fields h depth member hfield
  · exact .str _
  · exact .nat h.1
  · rw [listToJson, listJson_eq] at hchildren
    cases hnodes : s.children with
    | nil => simp [childrenMember, hnodes] at hmember
    | cons t rest =>
      rw [hnodes] at hchildren
      simp only [childrenMember, hnodes, List.mem_singleton] at hmember
      exact hmember ▸ hchildren (List.cons_ne_nil t rest)

/-- Two lists or objects for each level of statements, and seven for the last one and its fields. -/
theorem plain_listToJson {n : Nat} {nodes : List Statement}
    (h : ∀ above s, Occurs nodes above s → above.length ≤ n ∧ s.LinesFit) :
    Plain (2 * n + 7) (listToJson nodes) := by
  rw [listToJson, listJson_eq]
  induction n generalizing nodes with
  | zero =>
    refine .list fun s hs => plain_toJson (h [] s (.top hs)).2 fun hne => ?_
    obtain ⟨t, ht⟩ := List.exists_mem_of_ne_nil _ hne
    exact absurd (h [s] t (.child (.top hs) ht)).1 (by simp)
  | succ n ih =>
    refine .list fun s hs => plain_toJson (h [] s (.top hs)).2 fun _ => ?_
    rw [listToJson, listJson_eq]
    refine ih fun above t ht => ?_
    obtain ⟨hlength, hfit⟩ := h (above ++ [s]) t (ht.under.inside hs)
    exact ⟨by simpa using hlength, hfit⟩

/-- Statements survive their JSON, whatever the order of its members. They survive its text as well,
as long as its lines fit in 64 bits and it is not too deep for the reader of the text. -/
theorem json_roundtrip (nodes : List Statement) :
    ofList? (listToJson nodes) = some nodes ∧
      (∀ j, (listToJson nodes).Alike j → ofList? j = some nodes) ∧
      ((∀ above s, Occurs nodes above s → above.length ≤ 60 ∧ s.LinesFit) →
        (Json.ofText? (listToJson nodes).compact).bind ofList? = some nodes) := by
  refine ⟨restores_list nodes _ (.refl _), restores_list nodes, fun h => ?_⟩
  obtain ⟨j, hread, hj⟩ := Json.ofText?_compact (plain_listToJson h)
  rw [hread, Option.bind_some]
  exact restores_list nodes j hj

/-- A loop on one line, with a quote, a backslash and a line break in it. -/
theorem json_roundtrip_loop :
    let inner := ofLine (.echo ⟨"\"\\\n\""⟩) 1
    let loop := ofBlock (.forLoop "i" (.range ⟨"1"⟩ ⟨"2"⟩ true)) 1 [inner]
    (∀ above s, Occurs [loop] above s → above.length ≤ 60 ∧ s.LinesFit) ∧
      (Json.ofText? (listToJson [loop]).compact).bind ofList? = some [loop] := by
  intro inner loop
  have hoccurs : ∀ above s, Occurs [loop] above s →
      above = [] ∧ s = loop ∨ above = [loop] ∧ s = inner := by
    intro above s hs
    induction hs with
    | top hs => exact .inl ⟨rfl, List.mem_singleton.mp hs⟩
    | child _ hs ih =>
      obtain ⟨rfl, rfl⟩ | ⟨rfl, rfl⟩ := ih
      · exact .inr ⟨rfl, List.mem_singleton.mp hs⟩
      · cases hs
  have hfit : ∀ above s, Occurs [loop] above s → above.length ≤ 60 ∧ s.LinesFit := by
    intro above s hs
    obtain ⟨rfl, rfl⟩ | ⟨rfl, rfl⟩ := hoccurs above s hs
    · exact ⟨by simp, by decide, by rintro _ _ ⟨⟩⟩
    · exact ⟨by simp, by decide, by rintro _ _ ⟨⟩⟩
  exact ⟨hfit, (json_roundtrip [loop]).2.2 hfit⟩

end Statement

end PipelineScript
