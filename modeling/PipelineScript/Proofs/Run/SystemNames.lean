import Mathlib
import PipelineScript.Proofs.Context.Functions
import PipelineScript.Proofs.Context.SystemNames
import PipelineScript.Proofs.Run.Discipline
import PipelineScript.Proofs.Run.Watching
import PipelineScript.Script

/-! # Names of the system at every point of a run

No step of a run checks whether a name that it binds begins with a dollar sign: that statements read
from a text never do is what keeps the values of the host as they were. The discipline also follows
the export, which shares the global scope with them: whenever an `export` has run, it has written
the value of its expression. Main statements: `system_names_fixed` for the values of the host,
`export_of_script` for the export. -/

namespace PipelineScript

namespace Event

/-- The contexts that the event tells of. -/
def contexts : Event → List Context
  | moved c => [c]
  | wrote _ before after => [before, after]
  | ran _ began _ => [began]
  | called .. => []

/-- The statement that has written or come to its end. -/
def statement? : Event → Option Statement
  | wrote s .. | ran s .. => some s
  | moved _ | called .. => none

/-- An `export` has written or come to its end. -/
def IsExport (e : Event) : Prop := ∃ s x, e.statement? = some s ∧ s.kind = .exportValue x

end Event

/-- What the export is bound to after the events, the latest of which comes first. The end of an
`export` follows its write, which is that of the value of its expression. -/
inductive Exported (seed : Option Binding) : List Event → Option Binding → Prop
  | seed : Exported seed [] seed
  | ran {s : Statement} {x : SourceExpr} {began before : Context} {v : Value}
      {outcome : Except Halt Flow} {es : List Event} {b : Option Binding} :
      s.kind = .exportValue x → Expression.valueOf x.source before.lookUp = .ok v →
      Exported seed es b →
      Exported seed (.ran s began outcome :: .wrote s before (before.setExport v) :: es)
        (some ⟨v, none⟩)
  | other {e : Event} {es : List Event} {b : Option Binding} : ¬ e.IsExport → Exported seed es b →
      Exported seed (e :: es) b

namespace Exported

variable {seed b : Option Binding} {events : List Event}

/-- The export is the value of the latest `export`, or what it was bound to before all events. -/
theorem latest (h : Exported seed events b) :
    (∃ newer s x began outcome before v older, events =
        newer ++ .ran s began outcome :: .wrote s before (before.setExport v) :: older ∧
      s.kind = .exportValue x ∧ Expression.valueOf x.source before.lookUp = .ok v ∧
      (∀ e ∈ newer, ¬ e.IsExport) ∧ b = some ⟨v, none⟩) ∨
    ((∀ e ∈ events, ¬ e.IsExport) ∧ b = seed) := by
  induction h with
  | seed => exact .inr ⟨List.forall_mem_nil _, rfl⟩
  | @ran s x began before v outcome es _ hk hv _ _ =>
    exact .inl ⟨[], s, x, began, outcome, before, v, es, rfl, hk, hv, List.forall_mem_nil _, rfl⟩
  | other he _ ih =>
    obtain ⟨newer, s, x, began, outcome, before, v, older, rfl, hk, hv, hnewer, rfl⟩ |
      ⟨hnone, rfl⟩ := ih
    · exact .inl ⟨_ :: newer, s, x, began, outcome, before, v, older, rfl, hk, hv,
        List.forall_mem_cons.mpr ⟨he, hnewer⟩, rfl⟩
    · exact .inr ⟨List.forall_mem_cons.mpr ⟨he, hnone⟩, rfl⟩

/-- Before an `export` has come to its end, it has written the value of its expression. -/
theorem wrote_of_ran (h : Exported seed events b) {s : Statement} {x : SourceExpr}
    (hk : s.kind = .exportValue x) {newer older : List Event} {began : Context}
    {outcome : Except Halt Flow} (hevents : events = newer ++ .ran s began outcome :: older) :
    ∃ before v rest, older = .wrote s before (before.setExport v) :: rest ∧
      Expression.valueOf x.source before.lookUp = .ok v := by
  induction h generalizing newer with
  | seed => simp at hevents
  | @ran t y _ before v _ es _ hk' hv _ ih =>
    rcases newer with _ | ⟨_, _ | ⟨_, newer⟩⟩ <;> cases hevents
    · cases hk.symm.trans hk'
      exact ⟨before, v, es, rfl, hv⟩
    · exact ih rfl
  | @other e es _ he _ ih =>
    rcases newer with _ | ⟨_, newer⟩ <;> cases hevents
    · exact absurd ⟨s, x, rfl, hk⟩ he
    · exact ih rfl

end Exported

namespace Context

/-- The bindings of the system names, the export apart, are those of the host. -/
def seededWith (host : HostValues) (exported : Option Binding) : String → Option Binding :=
  Function.update (hostSystem host) exportName exported

theorem reserves_seededWith (host : HostValues) :
    (ofHost host).Reserves (seededWith host (hostSystem host exportName)) := by
  rw [seededWith, Function.update_eq_self]
  exact reserves_ofHost host

/-- At some time of a run the context keeps what the host gave it. -/
def Guards (host : HostValues) (c : Context) : Prop := ∃ b, c.Reserves (seededWith host b)

theorem Guards.lookUp {host : HostValues} {c : Context} {name : String} (h : c.Guards host)
    (hname : IsSystemName name) (hne : name ≠ exportName) :
    c.lookUp name = (ofHost host).lookUp name := by
  obtain ⟨b, hb⟩ := h
  rw [hb.lookUp hname, (reserves_ofHost host).lookUp hname, seededWith, Function.update_of_ne hne]

end Context

namespace Run

/-- Up to now the names of the system are kept from a script whose statements have the property `P`
throughout. What is told of the export is as `told` says, if nothing false was remembered at the
start. -/
structure Reserving (P : Kind → Prop) (host : HostValues) (memo : Memo)
    (told : List Event → Option Binding → Prop) (m : Machine) : Prop where
  sound : memo.Sound → m.memo.Sound
  run : ∃ events b, m.events = some events ∧ (memo.Sound → told events b) ∧
    m.context.Reserves (Context.seededWith host b) ∧ m.context.Knows (Statement.Every P) ∧
    ∀ e ∈ events, (∀ c ∈ e.contexts, c.Guards host) ∧ ∀ s, e.statement? = some s → P s.kind

/-- The discipline of scripts whose statements have the property `P` throughout. Where a statement
has come to its end, what is told of the export is right as soon as the end is told. -/
def reserving (P : Kind → Prop) (host : HostValues) (memo : Memo) : Discipline Unit where
  fits _ s := s.Every P
  defines := Statement.Every P
  holds _ goesOn := Reserving P host memo fun events b =>
    goesOn = true → Exported (Context.hostSystem host Context.exportName) events b
  ends _ s goesOn := Reserving P host memo fun events b => goesOn = true → ∀ began outcome,
    Exported (Context.hostSystem host Context.exportName) (.ran s began outcome :: events) b

variable {P : Kind → Prop} {host : HostValues} {memo : Memo} {m m' : Machine}
  {told told' : List Event → Option Binding → Prop}

theorem Reserving.guards (hm : Reserving P host memo told m) : m.context.Guards host := by
  obtain ⟨-, events, b, -, -, hr, -⟩ := hm
  exact ⟨b, hr⟩

/-- The export is still bound as it was, whatever else the next event has done. -/
theorem Reserving.note {e : Event} (hm : Reserving P host memo told m)
    (hmemo : m'.memo = m.memo) (hevents : m'.events = m.events.map (e :: ·))
    (hcontexts : ∀ c ∈ e.contexts, c.Guards host) (hown : ∀ s, e.statement? = some s → P s.kind)
    (hc : ∀ system, m.context.Reserves system → m'.context.Reserves system)
    (hf : m.context.Knows (Statement.Every P) → m'.context.Knows (Statement.Every P))
    (htold : ∀ events b, told events b → told' (e :: events) b) :
    Reserving P host memo told' m' := by
  obtain ⟨hsound, events, b, hes, hb, hr, hk, hpast⟩ := hm
  exact ⟨hmemo ▸ hsound, e :: events, b, by rw [hevents, hes]; rfl, fun h => htold _ _ (hb h),
    hc _ hr, hf hk, List.forall_mem_cons.mpr ⟨⟨hcontexts, hown⟩, hpast⟩⟩

theorem reserving_moveTo {c : Context} {goesOn : Bool}
    (hm : (reserving P host memo).holds () goesOn m)
    (hc : ∀ system, m.context.Reserves system → c.Reserves system)
    (hf : m.context.Knows (Statement.Every P) → c.Knows (Statement.Every P)) :
    (reserving P host memo).holds () goesOn (m.moveTo c) := by
  obtain ⟨b, hb⟩ := hm.guards
  exact hm.note rfl rfl (List.forall_mem_singleton.mpr ⟨b, hc _ hb⟩) nofun hc hf
    fun _ _ h hgoes => .other nofun (h hgoes)

/-- A write to names of a script. -/
theorem reserving_write {s : Statement} {c : Context} (hs : s.Every P)
    (hk : ∀ x, s.kind ≠ .exportValue x) (hm : (reserving P host memo).holds () true m)
    (hc : ∀ system, m.context.Reserves system → c.Reserves system)
    (hf : m.context.Knows (Statement.Every P) → c.Knows (Statement.Every P)) :
    (reserving P host memo).ends () s true (m.write s c) := by
  obtain ⟨b, hb⟩ := hm.guards
  have hother (e : Event) (he : e.statement? = some s) : ¬ e.IsExport := by
    rintro ⟨t, x, ht, hx⟩
    cases he.symm.trans ht
    exact hk x hx
  refine hm.note rfl rfl ?_ (by rintro _ ⟨⟩; exact hs.kind) hc hf
    fun _ _ h _ _ _ => .other (hother _ rfl) (.other (hother _ rfl) (h rfl))
  exact List.forall_mem_cons.mpr ⟨⟨b, hb⟩, List.forall_mem_singleton.mpr ⟨b, hc _ hb⟩⟩

/-- The write of an `export`. -/
theorem reserving_export {s : Statement} {x : SourceExpr} {v : Value} (hs : s.Every P)
    (hk : s.kind = .exportValue x) (hm : (reserving P host memo).Gave () (eval x s.line) v m) :
    (reserving P host memo).ends () s true (m.write s (m.context.setExport v)) := by
  obtain ⟨⟨hsound, events, b, hes, hb, hr, hf, hpast⟩, began, hbegan, hrun⟩ := hm
  have hcontext : m.context = began.context := by
    have := (quiet_eval x s.line began).1.context
    rwa [hrun] at this
  have hvalue (h : memo.Sound) : Expression.valueOf x.source m.context.lookUp = .ok v := by
    rw [hcontext]
    exact valueOf_of_eval (hbegan.sound h) hrun
  have hset : (m.context.setExport v).Reserves (Context.seededWith host (some ⟨v, none⟩)) := by
    have := hr.setExport v
    rwa [Context.seededWith, Function.update_idem] at this
  refine ⟨hsound, _ :: events, _, congrArg (Option.map _) hes,
    fun h _ _ _ => .ran hk (hvalue h) (hb h rfl), hset, hf.setExport v, ?_⟩
  refine List.forall_mem_cons.mpr ⟨⟨?_, by rintro _ ⟨⟩; exact hs.kind⟩, hpast⟩
  exact List.forall_mem_cons.mpr ⟨⟨b, hr⟩, List.forall_mem_singleton.mpr ⟨_, hset⟩⟩

theorem reserving_kept (hP : ∀ k, P k → ∀ name ∈ k.binders, ¬ IsSystemName name)
    (sv : Services) : (reserving P host memo).Kept sv where
  shapes := {
    own := fun _ _ => trivial
    armOwn := fun _ _ _ _ => trivial
    arm := fun hs _ ha ht => (hs.children _ ha).children _ ht
    body := fun hs _ ht => hs.children _ ht }
  flows := .trivial (fun _ _ => trivial) fun _ => trivial
  values := .trivial fun _ => trivial
  quiet hr hm := by
    obtain ⟨hsound, events, b, hes, hb, hreserves, hk, hpast⟩ := hm
    exact ⟨hr.memo ∘ hsound, events, b, hr.events.trans hes, hb, hr.context ▸ hreserves,
      hr.context ▸ hk, hpast⟩
  stop hm := by
    obtain ⟨hsound, events, b, hes, -, hrest⟩ := hm
    exact ⟨hsound, events, b, hes, nofun, hrest⟩
  ordinary _ := trivial
  stray _ _ _ := trivial
  importPath {k s m path localName} hs hk hm := by
    have hname := hP _ hs.kind localName (by simp [hk, Kind.binders])
    refine reserving_write hs (by simp [hk]) hm (fun system h => ?_) fun h => ?_
    · exact Context.Reserves.declare (c := m.context.addImport localName path) ⟨h.inner, h.global⟩
        hname _ _
    · exact Context.Knows.declare (c := m.context.addImport localName path) h _ _ _
  declare {k s m name declaredType value v _} hs hk _ _ hm := by
    have hname := hP _ hs.kind name (by simp [hk, Kind.binders])
    exact reserving_write hs (by simp [hk]) hm.holds (fun _ h => h.declare hname _ _) fun h =>
      h.declare _ _ _
  assign {k s m name value v _} hs hk _ _ hm := by
    have hname := hP _ hs.kind name (by simp [hk, Kind.binders])
    exact reserving_write hs (by simp [hk]) hm.holds (fun _ h => h.assign hname _) fun h =>
      h.assign _ _
  taskBlock {k s m target tasks t} hs hk _ hm := by
    have hname := hP _ hs.kind target (by simp [hk, Kind.binders])
    exact reserving_write hs (by simp [hk]) hm.holds (fun _ h => h.assign hname _) fun h =>
      h.assign _ _
  exportValue hs hk _ hm := reserving_export hs hk hm
  ended {k s goesOn m} hs hw hm := by
    have hother (hgoes : goesOn = true) (began outcome) :
        ¬ (Event.ran s began outcome).IsExport := by
      rintro ⟨_, x, ⟨⟩, hk⟩
      simpa [hk, Kind.isWrite] using hw hgoes
    obtain ⟨hsound, events, b, hes, hb, hrest⟩ := hm
    exact ⟨hsound, events, b, hes, fun h hgoes began outcome =>
      .other (hother hgoes began outcome) (hb h hgoes), hrest⟩
  hoist {k m nodes} hn hm := reserving_moveTo hm (fun _ h => h.hoist nodes) fun h =>
    h.hoist fun s hs _ _ _ => hn s hs
  push hm := reserving_moveTo hm (fun _ h => h.push _) fun h => h.push _
  pop _ hm' := reserving_moveTo hm' (fun _ h => h.popTo _) fun h => h.popTo _
  enterLoop hm := reserving_moveTo hm (fun _ h => ⟨h.inner, h.global⟩) id
  exitLoop _ hm' := reserving_moveTo hm' (fun _ h => ⟨h.inner, h.global⟩) id
  item {k s m name it v} hs hk _ hm := by
    have hname := hP _ hs.kind name (by simp [hk, Kind.binders])
    exact reserving_moveTo hm (fun _ h => h.declare hname _ _) fun h => h.declare _ _ _
  callable {k m name f} hm hf := by
    obtain ⟨-, -, -, -, -, -, hk, -⟩ := hm
    exact ⟨hk.of_function? hf, fun _ _ _ => (hk.of_function? hf).children,
      fun _ _ => ⟨rfl, trivial⟩⟩
  enterCall {k m f name params args} hf hk _ hm := by
    have hparams : ∀ p ∈ params, ¬ IsSystemName p := fun p hp =>
      hP _ hf.1.kind p (by simp [hk, Kind.binders, hp])
    have he := reserving_moveTo (c := m.context.enterFunction) hm
      (fun _ h => ⟨h.inner, h.global⟩) id
    have hp := reserving_moveTo he (fun _ h => h.push .function) fun h => h.push .function
    exact reserving_moveTo hp (fun _ h => h.bindParams hparams args) fun h => h.bindParams _ args
  leaveCall {k _ m m'} _ hm' := by
    have hp := reserving_moveTo hm' (fun _ h => h.popTo m.context.depth) fun h => h.popTo _
    exact reserving_moveTo hp (fun _ h => ⟨h.inner, h.global⟩) id
  ran hs hm _ hm' := hm'.note rfl rfl (List.forall_mem_singleton.mpr hm.guards)
    (by rintro _ ⟨⟩; exact hs.kind) (fun _ h => h) id fun _ _ h hgoes => h hgoes _ _
  called _ hm := hm.note rfl rfl (List.forall_mem_nil _) nofun (fun _ h => h) id
    fun _ _ h hgoes => .other nofun (h hgoes)

/-- What a script does before it gives up its export. -/
theorem reserving_runList (host : HostValues)
    (hP : ∀ k, P k → ∀ name ∈ k.binders, ¬ IsSystemName name)
    {nodes : List Statement} (hn : ∀ s ∈ nodes, s.Every P) (sv : Services) (memo : Memo)
    (monitor : Option Monitor) :
    let r := (runList sv (callFunction sv maxCallDepth) nodes).run (start host memo monitor).watched
    (reserving P host memo).holds () r.1.isOk r.2 := by
  have hstart : (reserving P host memo).holds () true (start host memo monitor).watched :=
    ⟨id, [], _, rfl, fun _ _ => .seed, Context.reserves_seededWith host,
      Context.knows_ofHost host, List.forall_mem_nil _⟩
  exact ((reserving_kept hP sv).keeps_runList maxCallDepth hn _ hstart).1

/-- Giving up the export is an event like any other for the values of the host. -/
theorem guards_script {sv : Services} {nodes : List Statement}
    (h : Reserving P host memo told
      ((runList sv (callFunction sv maxCallDepth) nodes).run m).2) :
    ∃ events, ((script sv nodes).run m).2.events = some events ∧
      (∀ e ∈ events, ∀ c ∈ e.contexts, c.Guards host) ∧
      ((script sv nodes).run m).2.context.Guards host := by
  rw [run_script]
  rcases hlist : (runList sv (callFunction sv maxCallDepth) nodes).run m with ⟨_ | flow, m'⟩ <;>
    rw [hlist] at h
  · obtain ⟨-, events, b, hevents, -, hr, -, hpast⟩ := h
    exact ⟨events, hevents, fun e he => (hpast e he).1, b, hr⟩
  · obtain ⟨-, events, b, hevents, -, hr, -, hpast⟩ := h
    have htake : m'.context.takeExport.2.Guards host := by
      refine ⟨none, ?_⟩
      have := hr.takeExport.2
      rwa [Context.seededWith, Function.update_idem] at this
    exact ⟨_ :: events, congrArg (Option.map _) hevents, List.forall_mem_cons.mpr
      ⟨List.forall_mem_singleton.mpr htake, fun e he => (hpast e he).1⟩, htake⟩

/-! ## The values of the host -/

/-- No name of a script is one of the system. -/
theorem not_isSystemName_of_binders {k : Kind} (h : ∀ name ∈ k.binders, IsName name) :
    ∀ name ∈ k.binders, ¬ IsSystemName name := fun name hname => (h name hname).not_isSystemName

/-- At every point of the run of a script, on its way and at its end, the values that the host gave
are what they were, under the names of the system: only the global scope binds such names. -/
theorem system_names_fixed {source : String} {script : Script}
    (h : Script.compile source = .ok script) (sv : Services) (host : HostValues) (memo : Memo)
    (monitor : Option Monitor) :
    let run := Run.script sv script.statements
    let m := start host memo monitor
    let Fixed (c : Context) : Prop := (∀ s ∈ c.inner, s.Plain) ∧
      ∀ name, IsSystemName name → name ≠ Context.exportName →
        c.lookUp name = m.context.lookUp name
    run.run m = ((run.run m.watched).1, (run.run m.watched).2.unwatched) ∧
    Fixed m.context ∧ Fixed (run.run m).2.context ∧
    ∃ events, (run.run m.watched).2.events = some events ∧
      ∀ e ∈ events, ∀ c ∈ e.contexts, Fixed c := by
  intro run m Fixed
  have hfixed (c : Context) (hc : c.Guards host) : Fixed c :=
    ⟨hc.choose_spec.inner, fun _ => hc.lookUp⟩
  have hw : run.run m = ((run.run m.watched).1, (run.run m.watched).2.unwatched) :=
    script_unwatched sv script.statements m.watched
  obtain ⟨hread, -, -⟩ := Script.compile_eq_ok_iff.mp h
  have hlist := reserving_runList host (fun _ => not_isSystemName_of_binders)
    (Statement.binders_of_ofSource hread) sv memo monitor
  obtain ⟨events, hevents, hcs, hend⟩ := guards_script hlist
  refine ⟨hw, hfixed _ ⟨_, Context.reserves_seededWith host⟩, ?_, events, hevents, ?_⟩
  · rw [hw]
    exact hfixed _ hend
  · exact fun e he c hc => hfixed c (hcs e he c hc)

/-- A name of the system is read inside of a block. -/
def readsSystem : String := "if (true) \x7b\n  declare x = $preValue\n\x7d"

def readsSystemTree : List Statement := [
  .ofBlock .conditional 1 [
    .ofBlock (.branch ⟨"true"⟩) 1 [.ofLine (.declare "x" none (some (.expr ⟨"$preValue"⟩))) 2]]]

theorem compile_readsSystem :
    Script.compile readsSystem = .ok ⟨Digest.ofText readsSystem, readsSystemTree⟩ := by
  have htokens : Token.ofSource readsSystem = .ok [⟨.keyword .if_, 1, 0, 2⟩,
      ⟨.punct .openParen, 1, 3, 4⟩, ⟨.keyword .true_, 1, 4, 8⟩, ⟨.punct .closeParen, 1, 8, 9⟩,
      ⟨.punct .openBrace, 1, 10, 11⟩, ⟨.lineEnd false, 1, 11, 12⟩, ⟨.keyword .declare, 2, 14, 21⟩,
      ⟨.ident "x", 2, 22, 23⟩, ⟨.punct .assign, 2, 24, 25⟩, ⟨.systemIdent "$preValue", 2, 26, 35⟩,
      ⟨.lineEnd false, 2, 35, 36⟩, ⟨.punct .closeBrace, 3, 36, 37⟩] := by cbv
  refine Script.compile_eq_ok_iff.mpr ⟨?_, rfl, rfl⟩
  rw [Statement.ofSource, htokens]
  rfl

theorem system_names_fixed_block :
    let m := start [("preValue", .int 1)] .standard none
    Script.compile readsSystem = .ok ⟨Digest.ofText readsSystem, readsSystemTree⟩ ∧
      ((script (.bare 0) readsSystemTree).run m).2.context.lookUp "$preValue" =
        m.context.lookUp "$preValue" := by
  intro m
  refine ⟨compile_readsSystem, ?_⟩
  exact (system_names_fixed compile_readsSystem (.bare 0) [("preValue", .int 1)] .standard
    none).2.2.1.2 "$preValue" rfl (by decide)

/-! ## The export -/

/-- A script that comes to its end gives up what the export is bound to then. -/
theorem exported_script {sv : Services} {nodes : List Statement} {exported : Option Value}
    (hmemo : memo.Sound)
    (h : let r := (runList sv (callFunction sv maxCallDepth) nodes).run m
      (reserving P host memo).holds () r.1.isOk r.2)
    (hrun : ((script sv nodes).run m).1 = .ok exported) :
    ∃ events b, ((script sv nodes).run m).2.events = some events ∧
      Exported (Context.hostSystem host Context.exportName) events b ∧
      exported = b.map Binding.value ∧
      ∀ e ∈ events, ∀ s, e.statement? = some s → P s.kind := by
  rw [run_script] at hrun ⊢
  rcases hlist : (runList sv (callFunction sv maxCallDepth) nodes).run m with ⟨_ | flow, m'⟩ <;>
    rw [hlist] at h hrun
  · cases hrun
  · obtain ⟨-, events, b, hevents, hb, hr, -, hpast⟩ := h
    have htake : m'.context.takeExport.1 = b.map Binding.value := by
      rw [hr.takeExport.1, Context.seededWith, Function.update_self]
    exact ⟨.moved _ :: events, b, congrArg (Option.map _) hevents, .other nofun (hb hmemo rfl),
      (Except.ok.inj hrun).symm.trans htake,
      List.forall_mem_cons.mpr ⟨nofun, fun e he => (hpast e he).2⟩⟩

/-- Every `export` that has run has written the value that its expression has in the context that it
wrote to. What a script exports is the value of the latest of them, wherever it stood, or else what
the host handed over under the very name of the export. A script without an `export` runs none, and
a host that hands over no such value leaves nothing to give up. -/
theorem export_of_script {source : String} {script : Script}
    (h : Script.compile source = .ok script) (sv : Services) (host : HostValues) {memo : Memo}
    (hmemo : memo.Sound) (monitor : Option Monitor) {exported : Option Value}
    (hrun : ((Run.script sv script.statements).run (start host memo monitor)).1 = .ok exported) :
    let run := Run.script sv script.statements
    let m := start host memo monitor
    run.run m = ((run.run m.watched).1, (run.run m.watched).2.unwatched) ∧
    (m.context.lookUp Context.exportName = none ↔
      ∀ entry ∈ host, entry.1 ≠ Context.exportName) ∧
    ∃ events, (run.run m.watched).2.events = some events ∧
      (∀ newer s x began outcome older, events = newer ++ .ran s began outcome :: older →
        s.kind = .exportValue x → ∃ before v rest,
          older = .wrote s before (before.setExport v) :: rest ∧
          Expression.valueOf x.source before.lookUp = .ok v) ∧
      ((∃ newer s x began outcome before v older, events =
            newer ++ .ran s began outcome :: .wrote s before (before.setExport v) :: older ∧
          s.kind = .exportValue x ∧ Expression.valueOf x.source before.lookUp = .ok v ∧
          (∀ e ∈ newer, ¬ e.IsExport) ∧ exported = some v) ∨
        ((∀ e ∈ events, ¬ e.IsExport) ∧ exported = m.context.lookUp Context.exportName)) ∧
      ((∀ s ∈ script.statements, s.Every fun k => ∀ x, k ≠ .exportValue x) →
        ∀ e ∈ events, ¬ e.IsExport) := by
  intro run m
  obtain ⟨hread, -, -⟩ := Script.compile_eq_ok_iff.mp h
  have hbinders := Statement.binders_of_ofSource hread
  have hseed : m.context.lookUp Context.exportName =
      (Context.hostSystem host Context.exportName).map Binding.value :=
    (Context.reserves_ofHost host).lookUp rfl
  have hw : run.run m = ((run.run m.watched).1, (run.run m.watched).2.unwatched) :=
    script_unwatched sv script.statements m.watched
  have hrun' : (run.run m.watched).1 = .ok exported := by
    rw [← hrun]
    exact (congrArg Prod.fst hw).symm
  have hlist := reserving_runList host (fun _ => not_isSystemName_of_binders) hbinders
    sv memo monitor
  obtain ⟨events, b, hevents, hb, rfl, -⟩ := exported_script hmemo hlist hrun'
  refine ⟨hw, ?_, events, hevents, fun newer s x began outcome older hes hk => ?_, ?_,
    fun hnone => ?_⟩
  · rw [hseed, Option.map_eq_none_iff]
    exact Context.hostSystem_exportName_iff host
  · exact hb.wrote_of_ran hk hes
  · obtain ⟨newer, s, x, began, outcome, before, v, older, rfl, hk, hv, hnewer, rfl⟩ |
      ⟨hnone, rfl⟩ := hb.latest
    · exact .inl ⟨newer, s, x, began, outcome, before, v, older, rfl, hk, hv, hnewer, rfl⟩
    · exact .inr ⟨hnone, hseed.symm⟩
  · -- the same run under the discipline of a script without exports
    have hlist := reserving_runList host
      (fun _ hk => not_isSystemName_of_binders hk.1)
      (fun s hs => (hbinders s hs).and (hnone s hs)) sv memo monitor
    obtain ⟨events', -, hevents', -, -, hown⟩ := exported_script hmemo hlist hrun'
    obtain rfl := Option.some.inj (hevents.symm.trans hevents')
    rintro e he ⟨s, x, hs, hk⟩
    exact (hown e he s hs).2 x hk

/-- An `export` goes over the value of the host. -/
theorem export_of_script_literal :
    let tree : List Statement := [.ofLine (.exportValue ⟨"1"⟩) 1]
    let memo := Memo.standard.remember "1" (.literal (.int 1))
    let m := start [("$export", .int 7)] memo none
    Script.compile "export 1" = .ok ⟨Digest.ofText "export 1", tree⟩ ∧ memo.Sound ∧
      ((script (.bare 0) tree).run m).1 = .ok (some (.int 1)) ∧
      ∃ events, ((script (.bare 0) tree).run m.watched).2.events = some events ∧
        ((∃ newer s x began outcome before v older, events =
              newer ++ .ran s began outcome :: .wrote s before (before.setExport v) :: older ∧
            s.kind = .exportValue x ∧ Expression.valueOf x.source before.lookUp = .ok v ∧
            (∀ e ∈ newer, ¬ e.IsExport) ∧ some (.int 1) = some v) ∨
          ((∀ e ∈ events, ¬ e.IsExport) ∧
            some (.int 1) = m.context.lookUp Context.exportName)) := by
  intro tree memo m
  have htokens : Token.ofSource "export 1" = .ok [⟨.keyword .export_, 1, 0, 6⟩,
      ⟨.int 1, 1, 7, 8⟩] := by cbv
  have hcompile : Script.compile "export 1" = .ok ⟨Digest.ofText "export 1", tree⟩ := by
    refine Script.compile_eq_ok_iff.mpr ⟨?_, rfl, rfl⟩
    rw [Statement.ofSource, htokens]
    rfl
  have hsource : Expression.ofSource "1" = .ok (.literal (.int 1)) := by
    have htokens : Token.ofChars "1".toList = .ok [⟨.int 1, 1, 0, 1⟩] := by cbv
    rw [Expression.ofSource, htokens]
    rfl
  have hmemo : memo.Sound := Memo.sound_standard.remember hsource
  have hrun : ((script (.bare 0) tree).run m).1 = .ok (some (.int 1)) := rfl
  obtain ⟨-, -, events, hevents, -, hlatest, -⟩ :=
    export_of_script hcompile (.bare 0) [("$export", .int 7)] hmemo none hrun
  exact ⟨hcompile, hmemo, hrun, events, hevents, hlatest⟩

/-- The value that a host hands over under the name of the export is exported by a script that
exports nothing. -/
theorem host_value_exported :
    ∃ script, Script.compile "declare x" = .ok script ∧
      (∀ s ∈ script.statements, s.Every fun k => ∀ e, k ≠ .exportValue e) ∧
      ((Run.script (.bare 0) script.statements).run
        (start [("$export", .int 7)] .standard none)).1 = .ok (some (.int 7)) := by
  have htokens : Token.ofSource "declare x" = .ok [⟨.keyword .declare, 1, 0, 7⟩,
      ⟨.ident "x", 1, 8, 9⟩] := by cbv
  have hc : Script.compile "declare x" =
      .ok ⟨Digest.ofText "declare x", [.ofLine (.declare "x" none none) 1]⟩ := by
    refine Script.compile_eq_ok_iff.mpr ⟨?_, rfl, rfl⟩
    rw [Statement.ofSource, htokens]
    rfl
  refine ⟨_, hc, List.forall_mem_singleton.mpr (.intro (by simp [Statement.ofLine]) ?_), rfl⟩
  exact List.forall_mem_nil _

end Run

end PipelineScript
