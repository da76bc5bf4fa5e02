import Mathlib
import PipelineScript.Proofs.Run.CallDepth
import PipelineScript.Proofs.Run.Lockstep
import PipelineScript.Proofs.Run.SystemNames
import PipelineScript.Proofs.Statement.Binders

/-! # Runs without `while` end

A loop over a range or a collection has its items before its first turn, so only calls could go on
for ever. What ends them is the count in the context: a call that takes nothing else for a bound
comes to the same end, however often it is unrolled beyond the limit. Main statement:
`whileFree_ends`. -/

namespace PipelineScript

/-- Every task comes back, with a value or with a failure. -/
def Tasks.Return (tasks : Tasks) : Prop :=
  ∀ name task, Table.get? tasks name = some task →
    ∀ site args message, (task site args).outcome ≠ .panicked message

/-- There is no `while` at any depth. -/
def Statement.WhileFree (s : Statement) : Prop :=
  s.Every fun k => ∀ condition, k ≠ .whileLoop condition

/-- No context that the event tells of is inside of more calls than it may be. -/
def Event.Bounded (e : Event) : Prop := ∀ c ∈ e.contexts, c.callDepth ≤ Run.maxCallDepth

namespace Run

/-! ## Calls bounded by the count in the context -/

/-- A call that is refused if the context is inside of too many calls already. For calls inside of
it, `call` is at hand. -/
def callCounted (sv : Services) (call : Statement → List Value → Nat → Run Value)
    (definition : Statement) (args : List Value) (line : Nat) : Run Value :=
  match definition.kind with
  | .function name params =>
    if args.length ≠ params.length then
      fail line (.argumentCount name params.length args.length)
    else do
      if maxCallDepth ≤ (← context).callDepth then fail line (.tooDeep maxCallDepth name)
      else
        match ← inCall definition params args (runList sv call definition.children) with
        | .returned v => return v
        | _ => return .null
  | kind => fail line (.notFunction kind.name)

/-- Calls inside each other, bounded by the count alone, unrolled so many times. -/
def callUnrolled (sv : Services) : Nat → Statement → List Value → Nat → Run Value
  | 0 => fun _ _ _ => throw .exhausted
  | steps + 1 => callCounted sv (callUnrolled sv steps)

/-! ## A run beside itself -/

/-- The same run twice: as many calls may still be made as the count is below its limit. -/
def bounding : Pairing Unit where
  fits _ := Statement.WhileFree
  halts h h' := h' = h ∧ ∃ line cause, h = .fault line cause
  holds n _ _ m m' := m' = m ∧ m.context.callDepth + n = maxCallDepth ∧
    m.context.Knows Statement.WhileFree ∧ ∀ es, m.events = some es → ∀ e ∈ es, e.Bounded

variable {n : Nat} {b : Bool} {m m' : Machine}

theorem together_of_quiet {α : Type} {x : Run α} (hx : Quiet x)
    (hfault : ∀ m h, (x.run m).1 = .error h → ∃ line cause, h = .fault line cause) :
    bounding.Together n () x x fun _ => True := by
  rintro _ m ⟨rfl, hn, hk, hes⟩
  obtain ⟨hc, he, -⟩ := (hx m).1
  refine .of_fst_eq rfl (fun h herror => ⟨rfl, hfault m h herror⟩) (fun _ _ => trivial) ?_
  exact ⟨rfl, hc ▸ hn, hc ▸ hk, he ▸ hes⟩

/-- One more event, all of whose contexts are inside of few enough calls. -/
theorem bounded_cons {es : List Event} {e : Event} {events : Option (List Event)}
    (h : ∀ es, events = some es → ∀ e ∈ es, e.Bounded) (he : e.Bounded)
    (hes : events.map (e :: ·) = some es) : ∀ e ∈ es, e.Bounded := by
  obtain ⟨older, holder, rfl⟩ := Option.map_eq_some_iff.mp hes
  exact List.forall_mem_cons.mpr ⟨he, h older holder⟩

/-- A move that enters no call and leaves none. -/
theorem bounding_moveTo (hm : bounding.holds n () b m m') {c d : Context}
    (heq : m' = m → d = c) (hc : c.callDepth = m.context.callDepth)
    (hf : m.context.Knows Statement.WhileFree → c.Knows Statement.WhileFree) :
    bounding.holds n () b (m.moveTo c) (m'.moveTo d) := by
  obtain ⟨rfl, hn, hk, hes⟩ := hm
  obtain rfl := heq rfl
  have hle : d.callDepth ≤ maxCallDepth := by omega
  exact ⟨rfl, hc ▸ hn, hf hk, fun es =>
    bounded_cons hes (List.forall_mem_singleton.mpr hle)⟩

theorem bounding_write (hm : bounding.holds n () b m m') (s : Statement) {c c' : Context}
    (heq : m' = m → c' = c) (hc : c.callDepth = m.context.callDepth)
    (hf : m.context.Knows Statement.WhileFree → c.Knows Statement.WhileFree) :
    bounding.holds n () b (m.write s c) (m'.write (bounding.view.statement s) c') := by
  rw [bounding.statement_of_plain rfl]
  obtain ⟨rfl, hn, hk, hes⟩ := hm
  obtain rfl := heq rfl
  have hle : m'.context.callDepth ≤ maxCallDepth := by omega
  refine ⟨rfl, hc ▸ hn, hf hk, fun es => bounded_cons hes ?_⟩
  exact List.forall_mem_cons.mpr ⟨hle, List.forall_mem_singleton.mpr (hc ▸ hle)⟩

theorem bounding_enterCall (hm : bounding.holds (n + 1) () b m m') (params : List String)
    (args : List Value) :
    bounding.holds n () b (m.enterCall params args) (m'.enterCall params args) := by
  obtain ⟨rfl, hn, hk, hes⟩ := hm
  let framed := m'.context.enterFunction
  have hcount : framed.callDepth + n = maxCallDepth := by
    rw [← hn]
    exact Nat.add_right_comm m'.context.callDepth 1 n
  have hframed : bounding.holds n () b (m'.moveTo framed) (m'.moveTo framed) :=
    ⟨rfl, hcount, hk, fun es => bounded_cons hes
      (List.forall_mem_singleton.mpr (Nat.le.intro hcount))⟩
  have hopened := bounding_moveTo (c := framed.push .function) hframed (fun _ => rfl) rfl
    fun h => h.push .function
  exact bounding_moveTo hopened (fun _ => rfl)
    (Context.SameOutside.bindParams params args (framed.push .function)).callDepth
    fun h => h.bindParams params args

theorem bounding_leaveCall {w w' : Machine} (hm : bounding.holds (n + 1) () true m m')
    (hw : bounding.holds n () b w w') :
    bounding.holds (n + 1) () b (m.leaveCall w) (m'.leaveCall w') := by
  obtain ⟨rfl, hn, -⟩ := hm
  have hleft := bounding_moveTo (c := w.context.popTo m'.context.depth)
    (d := w'.context.popTo m'.context.depth) hw
    (fun h => by rw [h]) (Context.callDepth_popTo _ _) fun h => h.popTo _
  obtain ⟨rfl, hcount, hf, hes⟩ := hw
  obtain ⟨-, hcount', hf', hes'⟩ := hleft
  let out := (w'.context.popTo m'.context.depth).exitFunction m'.context.loopDepth
  have hout : out.callDepth + (n + 1) = maxCallDepth := by
    show (w'.context.popTo m'.context.depth).callDepth - 1 + (n + 1) = maxCallDepth
    rw [Context.callDepth_popTo]
    omega
  exact ⟨rfl, hout, hf', fun es => bounded_cons hes'
    (List.forall_mem_singleton.mpr (Nat.le.intro hout))⟩

section

variable {sv : Services}

theorem bounding_kept (hlimit : sv.limitMillis = none) (htasks : sv.tasks.Return) :
    bounding.Kept sv sv where
  loopTurns := rfl
  tasks := rfl
  shapes := {
    own := fun _ _ => trivial
    armOwn := fun _ _ _ _ => trivial
    arm := fun hs _ ha ht => (hs.children _ ha).children _ ht
    body := fun hs _ ht => hs.children _ ht }
  flows := .trivial (fun _ _ => trivial) fun _ => trivial
  values := .trivial fun _ => trivial
  stop := id
  fault line cause _ := ⟨rfl, line, cause, rfl⟩
  rangeBound line _ _ := ⟨rfl, line, _, rfl⟩
  stray _ _ line := ⟨rfl, line, _, rfl⟩
  exhausted hs hk := absurd hk (hs.kind _)
  deadline n _ line := together_of_quiet (quiet_checkDeadline _ _) fun m h => by
    rw [hlimit]
    rintro ⟨⟩
  eval n _ line _ := together_of_quiet (quiet_eval _ line) fun m h => by
    unfold eval
    simp only [run_bind, run_get, run_set]
    split
    · rintro ⟨⟩
    · rintro ⟨⟩
      exact ⟨line, _, rfl⟩
  perform {_ _ args} n _ line htask _ :=
    together_of_quiet (quiet_perform sv line _ _ args) fun m h => by
      unfold perform
      simp only [run_bind, run_get, run_modify]
      split
      · rintro ⟨⟩
      · rintro ⟨⟩
        exact ⟨line, _, rfl⟩
      · rename_i message hpanic
        exact absurd hpanic (htasks _ _ htask _ args message)
  workOff n _ _ := together_of_quiet (quiet_workOff sv _) fun m h => by rintro ⟨⟩
  echo n _ line message := together_of_quiet (quiet_echo _ line message) fun m h => by
    cases sv.echoes <;> rintro ⟨⟩
  function name hm := by
    obtain ⟨rfl, -, hk, -⟩ := hm
    exact ⟨(View.map_statement_plain _).symm, fun f hf => ⟨trivial,
      fun _ _ _ => (hk.of_function? hf).children, fun _ line => ⟨rfl, line, _, rfl⟩⟩⟩
  resolve name hm := by rw [hm.1]
  declaredType _ _ hm := by rw [hm.1]
  loopDepth hm := by rw [hm.1]
  importPath {_ _ m _ s path localName} _ _ hm :=
    bounding_write hm s (fun h => by rw [h])
      (Context.callDepth_modifyCurrent (m.context.addImport localName path) _)
      fun h => Context.Knows.declare (c := m.context.addImport localName path) h _ _ _
  declare _ _ _ _ hm := bounding_write hm.holds _ (fun h => by rw [h])
    (Context.callDepth_modifyCurrent _ _) fun h => h.declare _ _ _
  assign _ _ _ _ hm := bounding_write hm.holds _ (fun h => by rw [h])
    (Context.counters_assign _ _ _).2 fun h => h.assign _ _
  taskBlock _ _ _ hm := bounding_write hm.holds _ (fun h => by rw [h])
    (Context.counters_assign _ _ _).2 fun h => h.assign _ _
  exportValue _ _ _ hm := bounding_write hm.holds _ (fun h => by rw [h]) rfl fun h => h.setExport _
  ended _ _ hm := hm
  hoist hn hm := by
    rw [bounding.statements_of_plain rfl]
    exact bounding_moveTo hm (fun h => by rw [h]) (Context.SameOutside.hoist _ _).callDepth
      fun h => h.hoist fun s hs _ _ _ => hn s hs
  push hm := bounding_moveTo hm (fun h => by rw [h]) rfl fun h => h.push .block
  pop hm hw := bounding_moveTo hw (fun h => by rw [h, hm.1]) (Context.callDepth_popTo _ _)
    fun h => h.popTo _
  enterLoop hm := bounding_moveTo hm (fun h => by rw [h]) rfl id
  exitLoop _ hw := bounding_moveTo hw (fun h => by rw [h]) rfl id
  item _ _ _ hm := bounding_moveTo hm (fun h => by rw [h]) (Context.callDepth_modifyCurrent _ _)
    fun h => h.declare _ _ none
  enterCall _ _ _ hm := bounding_enterCall hm _ _
  leaveCall hm hw := bounding_leaveCall hm hw
  ran _ hm ho hw := by
    obtain ⟨rfl, hn, -⟩ := hm
    obtain ⟨rfl, hcount, hf, hes⟩ := hw
    rw [bounding.statement_of_plain rfl, ho.eq fun hh => hh.1]
    exact ⟨rfl, hcount, hf, fun es => bounded_cons hes
      (List.forall_mem_singleton.mpr (Nat.le.intro hn))⟩
  called ho hm := by
    obtain ⟨rfl, hcount, hf, hes⟩ := hm
    rw [bounding.statement_of_plain rfl, ho.eq fun hh => hh.1]
    exact ⟨rfl, hcount, hf, fun es => bounded_cons hes (List.forall_mem_nil _)⟩

/-- Only the second run looks at the context first. -/
theorem together_look {α : Type} {x : Run α} {f : Context → Run α} {post : α → Prop}
    (hf : ∀ m m', bounding.holds n () true m m' → bounding.Together n () x (f m'.context) post) :
    bounding.Together n () x (context >>= f) post := by
  intro m m' hm
  rw [run_bind context, run_context]
  exact hf m m' hm m m' hm

/-- While so many calls may still be made, calls that are unrolled once more than that never run
out, and do what calls with room for so many do. -/
theorem calls_unrolled (kept : bounding.Kept sv sv) (extra : Nat) :
    ∀ n, bounding.CallsTogether n (callFunction sv n) (callUnrolled sv (n + extra + 1)) := by
  intro n
  induction n with
  | zero =>
    rintro ⟨⟩ f args line hf -
    rw [bounding.statement_of_plain rfl]
    unfold callFunction callUnrolled callCounted
    cases f.kind with
    | function name params =>
      dsimp only
      split
      · exact kept.fail id
      · refine together_look fun m m' hm => ?_
        obtain ⟨rfl, hn, -⟩ := hm
        rw [if_pos (show maxCallDepth ≤ m'.context.callDepth from Nat.le_of_eq hn.symm)]
        exact kept.fail id
    | _ => exact kept.throw ⟨rfl, line, _, rfl⟩
  | succ n ih =>
    rintro ⟨⟩ f args line hf hargs
    have hbody (hn : ∀ t ∈ f.children, t.WhileFree) := kept.together_list (k := ()) ih hn
    rw [bounding.statements_of_plain rfl] at hbody
    rw [bounding.statement_of_plain rfl, Nat.add_right_comm n 1 extra]
    unfold callFunction callUnrolled callCounted
    cases hk : f.kind with
    | function name params =>
      have hcall := kept.together_inCall hf hk hargs (hbody (hf.2.1 name params hk))
      rw [bounding.statement_of_plain rfl] at hcall
      dsimp only
      split
      · exact kept.fail id
      · refine together_look fun m m' hm => ?_
        obtain ⟨rfl, hn, -⟩ := hm
        rw [if_neg (by omega)]
        refine hcall.bind fun flow _ => ?_
        cases flow <;> exact .pure trivial
    | _ => exact kept.throw ⟨rfl, line, _, rfl⟩

/-! ## Main statement -/

/-- At the start of a run all calls may still be made, whether somebody watches it or not. -/
theorem bounding_start (host : HostValues) (memo : Memo) (monitor : Option Monitor) :
    ∀ m ∈ [start host memo monitor, (start host memo monitor).watched],
      bounding.holds maxCallDepth () true m m := by
  refine List.forall_mem_cons.mpr ⟨?_, List.forall_mem_singleton.mpr ?_⟩
  · exact ⟨rfl, Nat.zero_add _, Context.knows_ofHost host, by rintro _ ⟨⟩⟩
  · exact ⟨rfl, Nat.zero_add _, Context.knows_ofHost host,
      by rintro _ ⟨⟩; exact List.forall_mem_nil _⟩

/-- Giving up the export is one more move, which no call is made for. -/
theorem counted_script {nodes : List Statement} {m : Machine}
    (hend : ((runList sv (callFunction sv maxCallDepth) nodes).run m).2.context.Counted)
    (hbound : ((runList sv (callFunction sv maxCallDepth) nodes).run m).2.context.callDepth ≤
      maxCallDepth)
    (htells : ((runList sv (callFunction sv maxCallDepth) nodes).run m).2.Tells fun e =>
      e.Counted ∧ e.Bounded) :
    ((script sv nodes).run m).2.Tells fun e => e.Counted ∧ e.Bounded := by
  rw [run_script]
  rcases hlist : (runList sv (callFunction sv maxCallDepth) nodes).run m with ⟨_ | flow, m'⟩ <;>
    rw [hlist] at hend hbound htells
  · exact htells
  · have hgiven : m'.context.takeExport.2.Counted := by
      rw [Context.Counted, Context.kinds_takeExport]
      exact hend
    exact htells.moveTo ⟨.inl hgiven, List.forall_mem_singleton.mpr hbound⟩

/-- A run without `while` at any depth ends, with a result or with an error at a line. The calls
that are bounded by nothing but the count in the context do not go on for longer, however often they
are unrolled: at every point of the run the count is the number of functions whose scopes are open,
and it does not exceed its limit. -/
theorem whileFree_ends (hlimit : sv.limitMillis = none) (htasks : sv.tasks.Return)
    {nodes : List Statement} (hnodes : ∀ s ∈ nodes, s.WhileFree) (host : HostValues) (memo : Memo)
    (monitor : Option Monitor) :
    let run := script sv nodes
    let m := start host memo monitor
    ((∃ exported, (run.run m).1 = .ok exported) ∨
      ∃ line cause, (run.run m).1 = .error (.fault line cause)) ∧
    (∀ steps, maxCallDepth < steps → ∀ m' ∈ [m, m.watched],
      (runList sv (callUnrolled sv steps) nodes).run m' =
        (runList sv (callFunction sv maxCallDepth) nodes).run m') ∧
    run.run m = ((run.run m.watched).1, (run.run m.watched).2.unwatched) ∧
    ∃ events, (run.run m.watched).2.events = some events ∧
      ∀ e ∈ events, e.Counted ∧ ∀ c ∈ e.contexts, c.callDepth ≤ maxCallDepth := by
  intro run m
  have kept := bounding_kept hlimit htasks
  have hlist (steps : Nat) (hsteps : maxCallDepth < steps) :
      bounding.Together maxCallDepth () (runList sv (callFunction sv maxCallDepth) nodes)
        (runList sv (callUnrolled sv steps) nodes) fun _ => True := by
    obtain ⟨extra, rfl⟩ := Nat.exists_eq_add_of_lt hsteps
    have := kept.together_list (k := ()) (calls_unrolled kept extra maxCallDepth) hnodes
    rwa [bounding.statements_of_plain rfl] at this
  have hw : run.run m = ((run.run m.watched).1, (run.run m.watched).2.unwatched) :=
    script_unwatched sv nodes m.watched
  refine ⟨?_, fun steps hsteps m' hm' => ?_, hw, ?_⟩
  · have hmeet := hlist _ (Nat.lt_succ_self _) m m (bounding_start host memo monitor m (.head _))
    simp only [run, run_script]
    rcases hrun : (runList sv (callFunction sv maxCallDepth) nodes).run m with ⟨h | flow, m'⟩
    · obtain ⟨-, -, -, line, cause, rfl⟩ := hmeet.halts (show _ = Except.error h by rw [hrun])
      exact .inr ⟨line, cause, rfl⟩
    · exact .inl ⟨_, rfl⟩
  · have hmeet := hlist steps hsteps m' m' (bounding_start host memo monitor m' hm')
    exact Prod.ext (hmeet.fst_eq And.left) hmeet.leaves.1
  · obtain ⟨-, hdepth, -, hbounded⟩ := (hlist _ (Nat.lt_succ_self _) m.watched m.watched
      (bounding_start host memo monitor m.watched (.tail _ (.head _)))).leaves
    obtain ⟨-, hend, events, hevents, hcounted⟩ :=
      counted_runList sv maxCallDepth nodes host memo monitor
    exact counted_script hend (Nat.le.intro hdepth) ⟨events, hevents, fun e he =>
      ⟨hcounted e he, hbounded events hevents e he⟩⟩

/-- A function that calls itself from a loop. -/
def callsItself : List Statement := [
  .ofBlock (.function "f" ["n"]) 1 [
    .ofBlock (.forLoop "i" (.range ⟨"0"⟩ ⟨"3"⟩ false)) 2 [.ofLine (.call ⟨"f", [⟨"i"⟩]⟩) 3]],
  .ofLine (.call ⟨"f", [⟨"1"⟩]⟩) 6]

theorem whileFree_ends_callsItself :
    let run := script (.bare 0) callsItself
    let m := start [] .standard none
    (Services.bare 0).limitMillis = none ∧ (Services.bare 0).tasks.Return ∧
      (∀ s ∈ callsItself, s.WhileFree) ∧
      ((∃ exported, (run.run m).1 = .ok exported) ∨
        ∃ line cause, (run.run m).1 = .error (.fault line cause)) := by
  have htasks : (Services.bare 0).tasks.Return := by rintro name task ⟨⟩
  have hfree : ∀ s ∈ callsItself, s.WhileFree := by
    have hcall (s : Statement) (hk : ∃ called, s.kind = .call called) (hs : s.children = []) :
        s.WhileFree := by
      obtain ⟨called, hk⟩ := hk
      exact .intro (by simp [hk]) (by simp [hs])
    have hloop : Statement.WhileFree (.ofBlock (.forLoop "i" (.range ⟨"0"⟩ ⟨"3"⟩ false)) 2
        [.ofLine (.call ⟨"f", [⟨"i"⟩]⟩) 3]) :=
      .intro (fun _ => nofun) (List.forall_mem_singleton.mpr (hcall _ ⟨_, rfl⟩ rfl))
    refine List.forall_mem_cons.mpr ⟨?_, List.forall_mem_singleton.mpr (hcall _ ⟨_, rfl⟩ rfl)⟩
    exact .intro (fun _ => nofun) (List.forall_mem_singleton.mpr hloop)
  exact ⟨rfl, htasks, hfree, (whileFree_ends rfl htasks hfree [] .standard none).1⟩

end

end Run

end PipelineScript
