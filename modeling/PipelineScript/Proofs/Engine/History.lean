import Mathlib
import PipelineScript.Engine
import PipelineScript.Proofs.Run.Alike
import PipelineScript.Proofs.Table

/-! # What an engine has done before makes no difference

Three things outlive a run: the compiled scripts, the scripts under names and the trees of
expressions. Whatever an engine is asked to do, it keeps of each only what it would find again
(`Engine.Faithful`). Main statement: `history_irrelevant`. A run by an engine with a past is the run
by one that compiles the text anew and remembers nothing. -/

namespace PipelineScript

/-- What an engine may be asked to do. -/
inductive Request where
  | compile (source : String)
  | run (source : String) (host : HostValues) (echoes : Bool)
  | runRegistered (name : String) (host : HostValues) (echoes : Bool)
  | execute (nodes : List Statement) (host : HostValues) (echoes : Bool)
  | register (name source : String)
  | remove (name : String)
  | clearRegistry
  | evictIdle (after maxIdle : Nat)
  | resetMonitor
  | shutdown

namespace Request

/-- The text that the engine is given. -/
def text? : Request → Option String
  | compile source | run source _ _ | register _ source => some source
  | _ => none

/-- The texts that names stand for after the request, if it is answered as `e` answers it. -/
def names (e : Engine) (known : String → Option String) : Request → String → Option String
  | register name source =>
    match (e.register name source).1 with
    | .ok _ => Function.update known name (some source)
    | .error _ => known
  | remove name =>
    match (e.remove name).1 with
    | .ok _ => Function.update known name none
    | .error _ => known
  | clearRegistry | shutdown => fun _ => none
  | _ => known

end Request

namespace Engine

def serve (e : Engine) : Request → Engine
  | .compile source => (e.compile source).2
  | .run source host echoes => (e.run source host echoes).2
  | .runRegistered name host echoes => (e.runRegistered name host echoes).2
  | .execute nodes host echoes => (e.execute nodes host echoes).2
  | .register name source => (e.register name source).2
  | .remove name => (e.remove name).2
  | .clearRegistry => e.clearRegistry
  | .evictIdle after maxIdle => (e.evictIdle after maxIdle).2
  | .resetMonitor => e.resetMonitor
  | .shutdown => e.shutdown

/-- The engine after the requests, and the text last registered under each name and not removed
since. -/
def serveAll (e : Engine) (known : String → Option String) :
    List Request → Engine × (String → Option String)
  | [] => (e, known)
  | r :: rest => (e.serve r).serveAll (r.names e known) rest

/-- Statements run in a fresh context with nothing remembered. -/
def executeAfresh (sv : Services) (nodes : List Statement) (host : HostValues) : RunReport :=
  let (result, m) := (Run.script sv nodes).run (Run.start host .standard none)
  ⟨result.mapError .halt, m.echoed.reverse⟩

/-- A text compiled from scratch and run so. -/
def runAfresh (sv : Services) (source : String) (host : HostValues) : RunReport :=
  match Script.compile source with
  | .ok script => executeAfresh sv script.statements host
  | .error d => ⟨.error (.script d), []⟩

end Engine

/-! ## What an engine keeps -/

/-- The digest tells the texts apart. -/
def Digest.Separates (texts : List String) : Prop :=
  ∀ a ∈ texts, ∀ b ∈ texts, Digest.ofText a = Digest.ofText b → a = b

/-- Every entry is the script of one of the texts. -/
def Cache.Faithful (texts : List String) (c : Cache) : Prop :=
  ∀ entry ∈ c.entries, ∃ text ∈ texts, entry.1 = Digest.ofText text ∧
    Script.compile text = .ok entry.2.script

namespace Cache.Faithful

variable {texts : List String} {c : Cache} (h : c.Faithful texts)

include h

/-- What the cache says is what compiling says. -/
theorem getOrCompile (hdigest : Digest.Separates texts) {source : String} (hs : source ∈ texts)
    (now : Nat) : (c.getOrCompile now source).1 = Script.compile source ∧
      (c.getOrCompile now source).2.Faithful texts := by
  unfold Cache.getOrCompile
  dsimp only
  cases hfound : Table.get? c.entries (Digest.ofText source) with
  | some entry =>
    obtain ⟨text, htext, hhash, hcompile⟩ := h _ (Table.mem_of_get? hfound)
    obtain rfl := hdigest source hs text htext hhash
    refine ⟨hcompile.symm, fun other ho => ?_⟩
    obtain rfl | ho := Table.eq_or_mem_of_mem_insert ho
    · exact ⟨source, hs, rfl, hcompile⟩
    · exact h other ho
  | none =>
    cases hcompile : Script.compile source with
    | error d => exact ⟨rfl, h⟩
    | ok script =>
      refine ⟨rfl, fun other ho => ?_⟩
      obtain rfl | ho := Table.eq_or_mem_of_mem_insert ho
      · exact ⟨source, hs, rfl, hcompile⟩
      · exact h other ho

/-- Whatever is dropped from the cache, the rest stays as it is. -/
theorem evictIdle (now maxIdle : Nat) : (c.evictIdle now maxIdle).2.Faithful texts :=
  fun entry he => h entry (List.mem_filter.mp he).1

theorem sweptBy (now : Nat) : (c.sweptBy now).Faithful texts := by
  unfold Cache.sweptBy
  split
  · exact h.evictIdle _ _
  · exact h

end Cache.Faithful

/-- The names stand for the scripts of their texts, and no other name for anything. -/
def Registry.Faithful (texts : List String) (known : String → Option String) (r : Registry) :
    Prop :=
  ∀ name, match known name with
    | some text => text ∈ texts ∧ ∃ script, Script.compile text = .ok script ∧
        Table.get? r name = some script
    | none => Table.get? r name = none

namespace Registry.Faithful

variable {texts : List String} {known : String → Option String} {r : Registry}

theorem empty : Registry.Faithful texts (fun _ => none) [] := fun _ => rfl

theorem insert (h : r.Faithful texts known) {source : String} {script : Script}
    (hs : source ∈ texts) (hcompile : Script.compile source = .ok script) (name : String) :
    Registry.Faithful texts (Function.update known name (some source))
      (Table.insert r name script) := by
  intro other
  rw [Table.get?_insert]
  by_cases hn : name = other
  · subst hn
    rw [Function.update_self, if_pos rfl]
    exact ⟨hs, script, hcompile, rfl⟩
  · rw [Function.update_of_ne (Ne.symm hn), if_neg hn]
    exact h other

theorem erase (h : r.Faithful texts known) (name : String) :
    Registry.Faithful texts (Function.update known name none) (Table.erase r name) := by
  intro other
  rw [Table.get?_erase]
  by_cases hn : name = other
  · subst hn
    rw [Function.update_self, if_pos rfl]
  · rw [Function.update_of_ne (Ne.symm hn), if_neg hn]
    exact h other

end Registry.Faithful

/-- Whatever the engine remembers it would find again, and what it is given is what `e₀` has. -/
structure Engine.Faithful (e₀ : Engine) (texts : List String) (known : String → Option String)
    (e : Engine) : Prop where
  tasks : e.tasks = e₀.tasks
  environment : e.environment = e₀.environment
  limitMillis : e.limitMillis = e₀.limitMillis
  loopTurns : e.loopTurns = e₀.loopTurns
  memo : e.memo.Sound
  cache : e.cache.Faithful texts
  registry : e.registry.Faithful texts known

namespace Engine

variable {e₀ e : Engine} {texts : List String} {known : String → Option String}

theorem faithful_build {settings : Settings} {tasks : Tasks} {environment : Table String}
    {startedAt : Instant} (h : build settings tasks environment startedAt = .ok e₀) :
    e₀.Faithful texts (fun _ => none) e₀ ∧ e₀.limitMillis = settings.limitMillis? ∧
      e₀.tasks = tasks := by
  unfold build at h
  dsimp only at h
  split at h
  · cases h
  · cases h
    exact ⟨⟨rfl, rfl, rfl, rfl, Memo.sound_standard, List.forall_mem_nil _, .empty⟩, rfl, rfl⟩

/-! ## Single requests -/

section

variable (h : e₀.Faithful texts known e) (hdigest : Digest.Separates texts)
  (hlimit : e₀.limitMillis = none) (htasks : e₀.tasks.Timeless)

include h

include hdigest in
theorem Faithful.compile {source : String} (hs : source ∈ texts) :
    (e.compile source).1 = Script.compile source ∧
      e₀.Faithful texts known (e.compile source).2 := by
  obtain ⟨hresult, hcache⟩ := h.cache.getOrCompile hdigest hs (e.clock + Run.tick)
  exact ⟨hresult, ⟨h.tasks, h.environment, h.limitMillis, h.loopTurns, h.memo, hcache, h.registry⟩⟩

include hlimit htasks in
/-- Time makes no difference to what the engine gives a run. -/
theorem Faithful.services (echoes : Bool) : (e₀.services echoes).Alike (e.services echoes) :=
  ⟨h.tasks, h.environment, h.loopTurns, rfl, .inr ⟨hlimit, h.limitMillis.trans hlimit, htasks⟩⟩

include hlimit htasks in
theorem Faithful.execute (nodes : List Statement) (host : HostValues) (echoes : Bool) :
    (e.execute nodes host echoes).1 = executeAfresh (e₀.services echoes) nodes host ∧
      e₀.Faithful texts known (e.execute nodes host echoes).2 := by
  have hsv := h.services hlimit htasks echoes
  have hnodes : ∀ s ∈ nodes, s.Mentions fun _ => True := fun s _ =>
    (Statement.every_of_expressions (P := fun _ => True) s fun _ _ => trivial).mono fun _ _ =>
      ⟨fun _ _ => trivial, fun _ _ _ _ _ _ => trivial⟩
  have hstart : (Run.start host .standard none).Alike (fun _ => True) (e₀.services echoes)
      (e.services echoes) (Run.start host e.memo e.monitor) :=
    ⟨.refl _, Context.knows_ofHost host, Memo.sound_standard, h.memo, rfl,
      hsv.time.imp_left fun h => ⟨h, rfl⟩⟩
  obtain ⟨hresult, hechoed, -, hmemo⟩ := Run.script_alike hsv trivial trivial hnodes hstart
  refine ⟨?_, ⟨h.tasks, h.environment, h.limitMillis, h.loopTurns, hmemo, h.cache.sweptBy _,
    h.registry⟩⟩
  show RunReport.mk (Except.mapError .halt ((Run.script (e.services echoes) nodes).run
      (Run.start host e.memo e.monitor)).1) _ = RunReport.mk _ _
  rw [hresult]
  exact congrArg (fun echoed => RunReport.mk _ (List.reverse echoed)) hechoed

include hdigest hlimit htasks in
theorem Faithful.run {source : String} (hs : source ∈ texts) (host : HostValues) (echoes : Bool) :
    (e.run source host echoes).1 = runAfresh (e₀.services echoes) source host ∧
      e₀.Faithful texts known (e.run source host echoes).2 := by
  obtain ⟨hresult, hcompiled⟩ := h.compile hdigest hs
  unfold Engine.run runAfresh
  rw [← hresult]
  rcases hc : e.compile source with ⟨d | script, e'⟩ <;> rw [hc] at hcompiled
  · exact ⟨rfl, hcompiled⟩
  · exact hcompiled.execute hlimit htasks script.statements host echoes

include hlimit htasks in
theorem Faithful.runRegistered (name : String) (host : HostValues) (echoes : Bool) :
    ((e.runRegistered name host echoes).1 = match known name with
      | some text => runAfresh (e₀.services echoes) text host
      | none => ⟨.error (.registry (.notFound name)), []⟩) ∧
      e₀.Faithful texts known (e.runRegistered name host echoes).2 := by
  have hname := h.registry name
  unfold Engine.runRegistered Registry.get
  cases hknown : known name with
  | some text =>
    rw [hknown] at hname
    obtain ⟨-, script, hcompile, hfound⟩ := hname
    simp only [runAfresh, hfound, hcompile]
    exact h.execute hlimit htasks script.statements host echoes
  | none =>
    rw [hknown] at hname
    rw [show Table.get? e.registry name = none from hname]
    exact ⟨rfl, h⟩

theorem Faithful.register {source : String} (hs : source ∈ texts) (name : String) :
    e₀.Faithful texts ((Request.register name source).names e known)
      (e.register name source).2 := by
  unfold Request.names
  dsimp only
  cases hreply : e.registry.register name source with
  | error fault =>
    simp only [Engine.register, hreply]
    exact h
  | ok reply =>
    simp only [Engine.register, hreply]
    unfold Registry.register at hreply
    split at hreply
    · cases hreply
    · split at hreply
      · rename_i script hcompile
        cases hreply
        exact { h with registry := h.registry.insert hs hcompile name }
      · cases hreply

theorem Faithful.remove (name : String) :
    e₀.Faithful texts ((Request.remove name).names e known) (e.remove name).2 := by
  unfold Request.names
  dsimp only
  cases hreply : e.registry.remove name with
  | error fault =>
    simp only [Engine.remove, hreply]
    exact h
  | ok reply =>
    simp only [Engine.remove, hreply]
    unfold Registry.remove at hreply
    cases hget : e.registry.get name <;> rw [hget] at hreply <;> cases hreply
    exact { h with registry := h.registry.erase name }

include hdigest hlimit htasks in
/-- Whatever the engine is asked to do, it remembers only what it would find again. -/
theorem Faithful.serve (r : Request) (hr : ∀ text ∈ r.text?, text ∈ texts) :
    e₀.Faithful texts (r.names e known) (e.serve r) := by
  cases r with
  | compile source => exact (h.compile hdigest (hr source rfl)).2
  | run source host echoes => exact (h.run hdigest hlimit htasks (hr source rfl) host echoes).2
  | runRegistered name host echoes => exact (h.runRegistered hlimit htasks name host echoes).2
  | execute nodes host echoes => exact (h.execute hlimit htasks nodes host echoes).2
  | register name source => exact h.register (hr source rfl) name
  | remove name => exact h.remove name
  | clearRegistry => exact { h with registry := .empty }
  | evictIdle after maxIdle => exact { h with cache := h.cache.evictIdle _ _ }
  | resetMonitor => exact { h with }
  | shutdown =>
    exact { h with
      memo := fun _ _ => by rintro ⟨⟩
      cache := List.forall_mem_nil _
      registry := .empty }

include hdigest hlimit htasks in
theorem Faithful.serveAll (requests : List Request)
    (hr : ∀ text ∈ requests.filterMap Request.text?, text ∈ texts) :
    e₀.Faithful texts (e.serveAll known requests).2 (e.serveAll known requests).1 := by
  induction requests generalizing e known with
  | nil => exact h
  | cons r rest ih =>
    have hserved := h.serve hdigest hlimit htasks r fun text ht =>
      hr text (List.mem_filterMap.mpr ⟨r, List.mem_cons_self, ht⟩)
    refine ih hserved fun text ht => hr text ?_
    obtain ⟨other, ho, ht⟩ := List.mem_filterMap.mp ht
    exact List.mem_filterMap.mpr ⟨other, List.mem_cons_of_mem _ ho, ht⟩

end

/-! ## Main statement -/

/-- After any requests to an engine that was just built, a run of a text is the run of it compiled
from scratch with nothing remembered, and a run of a name is the run of the text that it was last
given, if it has one. -/
theorem history_irrelevant {settings : Settings} {tasks : Tasks} {environment : Table String}
    {startedAt : Instant} (hbuild : build settings tasks environment startedAt = .ok e₀)
    (hlimit : settings.limitMillis? = none) (htasks : tasks.Timeless) (requests : List Request)
    (source : String)
    (hdigest : Digest.Separates (source :: requests.filterMap Request.text?))
    (host : HostValues) (echoes : Bool) :
    let served := e₀.serveAll (fun _ => none) requests
    (served.1.run source host echoes).1 = runAfresh (e₀.services echoes) source host ∧
    ∀ name, (served.1.runRegistered name host echoes).1 = match served.2 name with
      | some text => (served.1.run text host echoes).1
      | none => ⟨.error (.registry (.notFound name)), []⟩ := by
  intro served
  obtain ⟨hbuilt, hlimit', htasks'⟩ :
      e₀.Faithful (source :: requests.filterMap Request.text?) _ e₀ ∧ _ := faithful_build hbuild
  rw [← htasks'] at htasks
  have h : e₀.Faithful (source :: requests.filterMap Request.text?) served.2 served.1 :=
    hbuilt.serveAll hdigest (hlimit'.trans hlimit) htasks requests
      fun text ht => List.mem_cons_of_mem _ ht
  have hrun {text : String} (ht : text ∈ source :: requests.filterMap Request.text?) :
      (served.1.run text host echoes).1 = runAfresh (e₀.services echoes) text host :=
    (h.run hdigest (hlimit'.trans hlimit) htasks ht host echoes).1
  refine ⟨hrun List.mem_cons_self, fun name => ?_⟩
  have hname := h.registry name
  rw [(h.runRegistered (hlimit'.trans hlimit) htasks name host echoes).1]
  cases hknown : served.2 name with
  | none => rfl
  | some text =>
    rw [hknown] at hname
    exact (hrun hname.1).symm

/-- A text that was run with another value, and dropped from the cache since, and one under a
name. -/
theorem history_irrelevant_registered :
    let settings : Settings := ⟨0, false, 3600, 1, []⟩
    let requests : List Request := [.register "two" "export 2",
      .run "export x" [("x", .int 1)] true, .evictIdle 0 0]
    ∃ e₀, build settings [] [] ⟨0, 0⟩ = .ok e₀ ∧
      let served := e₀.serveAll (fun _ => none) requests
      (served.1.run "export x" [("x", .int 3)] true).1 =
        runAfresh (e₀.services true) "export x" [("x", .int 3)] ∧
      (served.1.runRegistered "two" [] true).1 = (served.1.run "export 2" [] true).1 := by
  intro settings requests
  have hdistinct : Digest.ofText "export x" ≠ Digest.ofText "export 2" := by decide +kernel
  have hdigest : Digest.Separates ("export x" :: requests.filterMap Request.text?) := by
    have htexts : ∀ text ∈ "export x" :: requests.filterMap Request.text?,
        text = "export x" ∨ text = "export 2" := by
      simp [requests, Request.text?]
    intro a ha b hb hab
    obtain rfl | rfl := htexts a ha <;> obtain rfl | rfl := htexts b hb
    · rfl
    · exact absurd hab hdistinct
    · exact absurd hab.symm hdistinct
    · rfl
  have htasks : Tasks.Timeless [] := by rintro name task ⟨⟩
  let script : Script := ⟨Digest.ofText "export 2", [.ofLine (.exportValue ⟨"2"⟩) 1]⟩
  have hcompile : Script.compile "export 2" = .ok script :=
    Script.compile_eq_ok_iff.mpr ⟨by cbv, rfl, rfl⟩
  obtain ⟨e₀, hbuild⟩ : ∃ e₀, build settings [] [] ⟨0, 0⟩ = .ok e₀ := ⟨_, rfl⟩
  have hregister : e₀.register "two" "export 2" =
      (.ok script, { e₀ with registry := [("two", script)] }) := by
    cases hbuild
    simp only [Engine.register, Registry.register, hcompile]
    rfl
  have hknown : (e₀.serveAll (fun _ => none) requests).2 "two" = some "export 2" := by
    simp [requests, serveAll, Request.names, hregister]
  refine ⟨e₀, hbuild, ?_⟩
  have hrun (host : HostValues) := history_irrelevant hbuild rfl htasks requests "export x" hdigest
    host true
  refine ⟨(hrun _).1, ((hrun _).2 "two").trans ?_⟩
  rw [hknown]

end Engine

end PipelineScript
