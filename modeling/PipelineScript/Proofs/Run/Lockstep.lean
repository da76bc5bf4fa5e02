import PipelineScript.Proofs.Run.Pairing

/-! # Two runs in step

What is proved of all runs by going through the statements case by case is proved here. Main
statement: if a pairing is kept, the runs of a list of statements keep to it
(`Pairing.Kept.together_runList`), whatever blocks, loops and functions they go through. Runs that
are given other calls go in step if these calls do (`Pairing.Kept.together_list`). -/

namespace PipelineScript

namespace Pairing

open Run

variable {μ : Type} {α : Type} {p : Pairing μ}

namespace Kept

variable {sv sv' : Services} (kept : p.Kept sv sv') {n : Nat} {k : μ} {s : Statement}
  {post : α → Prop}

include kept

theorem throw {h h' : Halt} (hh : p.halts h h') :
    p.Together n k (throw h : Run α) (throw h') post :=
  fun _ _ hm => .error hh (kept.stop hm)

theorem fail {line : Nat} {cause : RunFault} (h : ¬ (Halt.fault line cause).IsStray) :
    p.Together n k (fail line cause : Run α) (fail (p.view.line line) cause) post :=
  kept.throw (kept.fault _ _ h)

theorem together_inScope {x y : Run α} (hx : p.Together n (p.inBlock k) x y post) :
    p.Together n k (inScope .block x) (inScope .block y) post := by
  intro m m' hm
  unfold inScope
  rw [run_within, run_within]
  exact (hx _ _ (kept.push hm)).after fun hw => kept.pop hm hw

theorem together_inLoop {x y : Run α} (hx : p.Together n (p.inLoop k) x y post) :
    p.Together n k (Run.inLoop x) (Run.inLoop y) post := by
  intro m m' hm
  unfold Run.inLoop
  rw [run_within, run_within]
  exact (hx _ _ (kept.enterLoop hm)).after fun hw => kept.exitLoop hm hw

/-- One call fewer may be made inside of a call. -/
theorem together_inCall {f : Statement} {name : String} {params : List String} {args : List Value}
    {x y : Run Flow} (hf : p.Callable k f) (hk : f.kind = .function name params)
    (hargs : ∀ a ∈ args, p.value a)
    (hx : p.Together n (p.inFunction k) x y (p.allows (p.inFunction k))) :
    p.Together (n + 1) k (inCall f params args x) (inCall (p.view.statement f) params args y)
      (p.allows (p.inFunction k)) := by
  intro m m' hm
  rw [run_inCall, run_inCall]
  have hmeet := hx _ _ (kept.enterCall hf hk hargs hm)
  exact hmeet.after fun hw => kept.leaveCall hm (kept.called hmeet.outcome hw)

theorem together_observed {x y : Run Flow} (hs : p.fits k s)
    (hx : p.Leads (p.holds n k true) x y (p.allows k) (p.ends n k s)) :
    p.Together n k (observed s x) (observed (p.view.statement s) y) (p.allows k) := by
  intro m m' hm
  rw [run_observed, run_observed]
  have hmeet := hx m m' hm
  exact hmeet.after fun hw => kept.ran hs hm hmeet.outcome hw

theorem together_hoisted {nodes : List Statement} {x y : Run α} (hn : ∀ t ∈ nodes, p.fits k t)
    (hx : p.Together n k x y post) :
    p.Together n k (do Run.hoist nodes; x) (do Run.hoist (p.view.statements nodes); y) post :=
  (Together.moving fun _ _ hm => kept.hoist hn hm).bind fun _ _ => hx

/-! ## Expressions -/

theorem together_evalAll (line : Nat) {es : List SourceExpr} (hes : ∀ e ∈ es, p.reads e) :
    p.Together n k (evalAll line es) (evalAll (p.view.line line) (es.map p.view.expr))
      fun vs => ∀ v ∈ vs, p.value v := by
  induction es with
  | nil => exact .pure (List.forall_mem_nil _)
  | cons e rest ih =>
    obtain ⟨he, hrest⟩ := List.forall_mem_cons.mp hes
    exact (kept.eval n k line he).bind fun v hv => (ih hrest).bind fun vs hvs =>
      .pure (List.forall_mem_cons.mpr ⟨hv, hvs⟩)

theorem together_rangeBound (line : Nat) {e : SourceExpr} (he : p.reads e) :
    p.Together n k (Run.rangeBound e line) (Run.rangeBound (p.view.expr e) (p.view.line line))
      fun _ => True := by
  refine (kept.eval n k line he).bind fun v _ => ?_
  split
  · exact .pure trivial
  · exact kept.throw (kept.rangeBound _ _ _)

theorem together_itemsOf (line : Nat) {it : Iterable} (hit : ∀ e ∈ it.expressions, p.reads e) :
    p.Together n k (itemsOf line it) (itemsOf (p.view.line line) (p.view.iterable it))
      (Items.All p.value) := by
  cases it with
  | range start stop inclusive =>
    exact (kept.together_rangeBound line (hit start (by simp [Iterable.expressions]))).bind
      fun _ _ => (kept.together_rangeBound line (hit stop (by simp [Iterable.expressions]))).bind
        fun _ _ => .pure trivial
  | each e =>
    refine (kept.eval n k line (hit e (by simp [Iterable.expressions]))).bind fun v hv => ?_
    split
    · rename_i items hitems
      exact .pure (kept.values.items hv hitems)
    · exact kept.fail id

/-! ## Tasks -/

theorem together_runTask {invocation : Invocation} (hargs : ∀ e ∈ invocation.args, p.reads e)
    (line : Nat) : p.Together n k (runTask sv invocation line)
      (runTask sv' (p.view.invocation invocation) (p.view.line line)) p.value := by
  rw [runTask_eq, runTask_eq, kept.tasks]
  refine (kept.together_evalAll line hargs).bind fun args hvs => .look fun m m' hm => ?_
  dsimp only [View.invocation]
  rw [kept.resolve invocation.name hm]
  split
  · exact kept.fail id
  · rename_i task htask
    exact kept.perform n k line htask hvs

/-- The jobs of a block are tasks that the runs are given. -/
theorem together_jobsOf {entries : List TaskEntry}
    (hargs : ∀ entry ∈ entries, ∀ e ∈ entry.call.args, p.reads e) :
    p.Together n k (jobsOf sv entries) (jobsOf sv' (entries.map p.view.entry)) fun jobs =>
      ∀ job ∈ jobs, (∃ name, Table.get? sv.tasks name = some job.task) ∧
        ∀ a ∈ job.args, p.value a := by
  induction entries with
  | nil => exact .pure (List.forall_mem_nil _)
  | cons entry rest ih =>
    obtain ⟨hentry, hrest⟩ := List.forall_mem_cons.mp hargs
    refine (kept.together_evalAll entry.line hentry).bind fun args hvs => .look fun m m' hm => ?_
    refine (ih hrest).bind fun jobs hjobs => ?_
    dsimp only [View.entry, View.invocation]
    rw [kept.tasks, kept.resolve entry.call.name hm]
    split
    · rename_i task htask
      exact .pure (List.forall_mem_cons.mpr ⟨⟨⟨_, htask⟩, hvs⟩, hjobs⟩)
    · exact .pure hjobs

theorem together_runBlock {entries : List TaskEntry}
    (hargs : ∀ entry ∈ entries, ∀ e ∈ entry.call.args, p.reads e) :
    p.Together n k (runBlock sv entries) (runBlock sv' (entries.map p.view.entry))
      fun v => p.value v ∧ ∃ t, v = .map t := by
  rw [runBlock_eq, runBlock_eq]
  exact (kept.together_jobsOf hargs).bind fun jobs hjobs =>
    (kept.workOff n k hjobs).and fun _ _ _ => map_of_workOff

/-! ## Loops -/

theorem together_afterTurn {again again' : Run Flow} {flow : Flow}
    (hf : p.allows (p.inBlock (p.inLoop k)) flow)
    (ha : p.Together n (p.inLoop k) again again' (p.allows k)) :
    p.Together n (p.inLoop k) (afterTurn again flow) (afterTurn again' flow) (p.allows k) := by
  cases flow with
  | normal => exact ha
  | continued => exact ha
  | broken => exact .pure (kept.flows.normal k)
  | returned v => exact .pure (kept.flows.loopReturned hf)
  | brokenAll =>
    refine .look fun m m' hm => ?_
    rw [kept.loopDepth hm]
    refine .pure ?_
    split
    · exact kept.flows.normal k
    · exact kept.flows.loopBrokenAll hm (by omega)

/-- The turns of a loop. In a state that is `ready` for its turns, the loop does not run out of them
before it may. -/
theorem together_iterate {σ : Type} (ready : Nat → σ → Prop) {line : Nat}
    {next next' : σ → Run (Option σ)} {body body' : Run Flow}
    (hout : ∀ state, ready 0 state → p.halts .exhausted .exhausted)
    (hnext : ∀ turns state, ready (turns + 1) state →
      p.Together n (p.inBlock (p.inLoop k)) (next state) (next' state)
        fun r => ∀ onward, r = some onward → ready turns onward)
    (hbody : p.Together n (p.inBlock (p.inLoop k)) body body'
      (p.allows (p.inBlock (p.inLoop k)))) :
    ∀ turns state, ready turns state →
      p.Together n (p.inLoop k) (iterate sv.limitMillis line next body turns state)
        (iterate sv'.limitMillis (p.view.line line) next' body' turns state) (p.allows k) := by
  intro turns
  induction turns with
  | zero => exact fun state hready => kept.throw (hout state hready)
  | succ turns ih =>
    intro state hready
    refine (kept.deadline n _ line).bind fun _ _ => ?_
    let went (turn : Option (σ × Flow)) : Prop := ∀ state flow, turn = some (state, flow) →
      ready turns state ∧ p.allows (p.inBlock (p.inLoop k)) flow
    refine Together.bind (kept.together_inScope (?_ : p.Together n _ _ _ went)) fun turn hturn => ?_
    · refine (hnext turns state hready).bind fun next hstate => ?_
      cases next with
      | none => exact .pure (by rintro _ _ ⟨⟩)
      | some onward =>
        exact hbody.bind fun flow hf => .pure (by rintro _ _ ⟨⟩; exact ⟨hstate onward rfl, hf⟩)
    · cases turn with
      | none => exact .pure (kept.flows.normal k)
      | some turn =>
        obtain ⟨hstate, hf⟩ := hturn _ _ rfl
        exact kept.together_afterTurn hf (ih turn.1 hstate)

/-- A loop has more turns than items are left. -/
theorem together_nextItem {name : String} {it : Iterable} (hs : p.fits k s)
    (hk : s.kind = .forLoop name it) (turns : Nat) {items : Items}
    (h : items.size < turns + 1 ∧ items.All p.value) :
    p.Together n (p.inBlock (p.inLoop k)) (nextItem name items) (nextItem name items) fun r =>
      ∀ rest, r = some rest → rest.size < turns ∧ rest.All p.value := by
  unfold nextItem
  split
  · exact .pure (by rintro _ ⟨⟩)
  · rename_i v rest hnext
    obtain ⟨hv, hrest⟩ := kept.values.next h.2 hnext
    refine (Together.moving fun _ _ hm => kept.item hs hk hv hm).bind fun _ _ => .pure ?_
    rintro _ ⟨⟩
    have := Items.size_of_next? hnext
    exact ⟨by omega, hrest⟩

/-! ## Values -/

variable {call call' : Statement → List Value → Nat → Run Value}

theorem together_callNamed (hcall : p.CallsTogether n call call') {invocation : Invocation}
    (hargs : ∀ e ∈ invocation.args, p.reads e) (line : Nat) :
    p.Together n k (callNamed sv call invocation line)
      (callNamed sv' call' (p.view.invocation invocation) (p.view.line line)) p.value := by
  refine .look fun m m' hm => ?_
  obtain ⟨hf, hcallable⟩ := kept.function invocation.name hm
  rw [show (p.view.invocation invocation).name = invocation.name from rfl, hf, kept.tasks,
    kept.resolve invocation.name hm]
  cases hname : m.context.function? invocation.name with
  | some f =>
    exact (kept.together_evalAll line hargs).bind fun args hvs =>
      hcall k f args line (hcallable f hname) hvs
  | none =>
    dsimp only [Option.map_none]
    split
    · exact kept.together_runTask hargs line
    · exact kept.fail id

theorem together_evalSource (hcall : p.CallsTogether n call call') {source : Source}
    (hsource : ∀ e ∈ source.expressions, p.reads e) (line : Nat) :
    p.Together n k (evalSource sv call line source)
      (evalSource sv' call' (p.view.line line) (p.view.source source)) p.value := by
  cases source with
  | expr e => exact kept.eval n k line (hsource e (by simp [Source.expressions]))
  | run invocation => exact kept.together_runTask hsource line
  | invoke invocation e =>
    obtain ⟨he, hargs⟩ := List.forall_mem_cons.mp hsource
    refine .look fun m m' hm => ?_
    obtain ⟨hf, hcallable⟩ := kept.function invocation.name hm
    rw [show (p.view.invocation invocation).name = invocation.name from rfl, hf, kept.tasks,
      kept.resolve invocation.name hm]
    cases hname : m.context.function? invocation.name with
    | some f =>
      exact (kept.together_evalAll line hargs).bind fun args hvs =>
        hcall k f args line (hcallable f hname) hvs
    | none =>
      dsimp only [Option.map_none]
      split
      · exact kept.together_runTask hargs line
      · exact kept.eval n k line he

/-! ## Ends of statements -/

/-- A statement that does not write to the context. -/
theorem ending (hs : p.fits k s) (hw : s.kind.isWrite = false) {x y : Run Flow}
    (hx : p.Together n k x y (p.allows k)) :
    p.Leads (p.holds n k true) x y (p.allows k) (p.ends n k s) :=
  fun m m' hm => (hx m m' hm).mono (fun _ => id) fun _ _ _ => kept.ended hs fun _ => hw

/-- The runs have stopped in the midst of a statement. -/
theorem stopped (hs : p.fits k s) {m m' : Machine} (hm : p.holds n k false m m') :
    p.ends n k s false m m' := kept.ended hs nofun hm

/-- A statement that ends normally with what it writes. -/
theorem leads_write {s' : Statement} {f g : Context → Context} {first : Machine → Machine → Prop}
    (hs' : p.view.statement s = s')
    (h : ∀ m m', first m m' → p.ends n k s true (m.write s (f m.context))
      (m'.write (p.view.statement s) (g m'.context))) :
    p.Leads first (do write s f; return .normal) (do write s' g; return .normal) (p.allows k)
      (p.ends n k s) := by
  subst hs'
  exact fun m m' hm => .ok (kept.flows.normal k) (h m m' hm)

theorem leads_declareValue {s' : Statement} {name : String} {declaredType : Option String}
    {value : Option Source} {v : Value} (hs : p.fits k s)
    (hk : s.kind = .declare name declaredType value) (hs' : p.view.statement s = s')
    (hv : p.value v) :
    p.Leads (p.Gave n k (Run.evalOptional (evalSource sv call s.line) value)
        (Run.evalOptional (evalSource sv' call' (p.view.line s.line))
          (value.map p.view.source)) v)
      (do declareValue s name declaredType v; return .normal)
      (do declareValue s' name declaredType v; return .normal) (p.allows k) (p.ends n k s) := by
  let f (c : Context) : Context := c.declare name v declaredType
  have hwrite (ht : ∀ t, declaredType = some t → v.matchesType? t ≠ some false) :
      p.Leads (p.Gave n k (Run.evalOptional (evalSource sv call s.line) value)
        (Run.evalOptional (evalSource sv' call' (p.view.line s.line))
          (value.map p.view.source)) v)
        (do write s f; return .normal) (do write s' f; return .normal) (p.allows k)
        (p.ends n k s) :=
    kept.leads_write hs' fun _ _ hm => kept.declare hs hk hv ht hm
  cases declaredType with
  | none => exact hwrite (by rintro _ ⟨⟩)
  | some t =>
    unfold declareValue checkType
    dsimp only
    split
    · subst hs'
      rw [View.statement_line]
      exact fun m m' hm => .error (kept.fault _ _ id) (kept.stopped hs (kept.stop hm.holds))
    · exact hwrite (by rintro _ ⟨⟩; assumption)

/-- The check and the write see the same context. -/
theorem leads_assignValue {s' : Statement} {name : String} {value : Source} {v : Value}
    (hs : p.fits k s) (hk : s.kind = .assign name value) (hs' : p.view.statement s = s')
    (hv : p.value v) :
    p.Leads (p.Gave n k (evalSource sv call s.line value)
        (evalSource sv' call' (p.view.line s.line) (p.view.source value)) v)
      (do assignValue s name v; return .normal) (do assignValue s' name v; return .normal)
      (p.allows k) (p.ends n k s) := by
  subst hs'
  intro m m' hm
  unfold assignValue checkType
  simp only [run_bind, run_context, kept.declaredType hs hk hm.holds, View.statement_line]
  cases htype : m.context.binding? name >>= Binding.declaredType with
  | none =>
    refine .ok (kept.flows.normal k) (kept.assign hs hk hv (fun b t hb ht => ?_) hm)
    rw [hb] at htype
    exact absurd (htype.symm.trans ht) nofun
  | some declared =>
    dsimp only
    by_cases hmatch : v.matchesType? declared = some false
    · rw [if_pos hmatch, if_pos hmatch]
      exact .error (kept.fault _ _ id) (kept.stopped hs (kept.stop hm.holds))
    · rw [if_neg hmatch, if_neg hmatch]
      refine .ok (kept.flows.normal k) (kept.assign hs hk hv (fun b t hb ht => ?_) hm)
      rw [hb] at htype
      obtain rfl : t = declared := Option.some.inj (ht.symm.trans htype)
      exact hmatch

/-! ## Statements and lists -/

mutual

theorem leads_statement (hcall : p.CallsTogether n call call') :
    ∀ {k : μ} (s : Statement), p.fits k s →
      p.Leads (p.holds n k true) (runStatement sv call s)
        (runStatement sv' call' (p.view.statement s)) (p.allows k) (p.ends n k s)
  | k, ⟨kind, shape, line, children⟩, hs => by
    have hown {e} := kept.shapes.own (e := e) hs
    have hbody (hl : kind.isLoop) : p.Together n (p.inBlock (p.inLoop k))
        (do Run.hoist children; runEach sv call children)
        (do Run.hoist (p.view.statements children); runEach sv' call' (p.view.statements children))
        (p.allows (p.inBlock (p.inLoop k))) :=
      have hc := fun t ht => kept.shapes.body hs hl ht
      kept.together_hoisted hc (together_each hcall children hc)
    have hs' : p.view.statement ⟨kind, shape, line, children⟩ =
      ⟨p.view.kind kind, shape, p.view.line line, p.view.statements children⟩ := by
      rw [View.statement]
    rw [hs']
    unfold runStatement
    cases kind with
    | importPath path localName =>
      exact kept.leads_write hs' fun _ _ hm => kept.importPath hs rfl hm
    | declare name declaredType value =>
      refine Together.bind_gave (.evalOptional kept.values.null fun source hsource =>
        kept.together_evalSource hcall (fun e he => hown ?_) line)
        (fun v hv => kept.leads_declareValue hs rfl hs' hv) fun _ _ => kept.stopped hs
      subst hsource
      simpa [Kind.expressions] using he
    | assign name value =>
      exact Together.bind_gave (kept.together_evalSource hcall (fun _ => hown) line)
        (fun v hv => kept.leads_assignValue hs rfl hs' hv) fun _ _ => kept.stopped hs
    | run invocation =>
      exact kept.ending hs rfl <|
        (kept.together_runTask (fun _ => hown) line).bind fun _ _ => .pure (kept.flows.normal k)
    | taskBlock target tasks =>
      refine Together.bind_gave (kept.together_runBlock fun entry hentry e he =>
        hown (List.mem_flatMap_of_mem hentry he)) (fun v hv => ?_) fun _ _ => kept.stopped hs
      obtain ⟨hv, t, rfl⟩ := hv
      exact kept.leads_write hs' fun _ _ hm => kept.taskBlock hs rfl hv hm
    | exportValue value =>
      exact Together.bind_gave (kept.eval n k line (hown (List.mem_singleton_self _)))
        (fun v hv => kept.leads_write hs' fun _ _ hm => kept.exportValue hs rfl hv hm)
        fun _ _ => kept.stopped hs
    | echo value =>
      exact kept.ending hs rfl <|
        (kept.eval n k line (hown (List.mem_singleton_self _))).bind fun v _ =>
          (kept.echo n k line _).bind fun _ _ => .pure (kept.flows.normal k)
    | conditional =>
      exact kept.ending hs rfl <| together_branches hcall children
        (fun a ha e => kept.shapes.armOwn hs (.inl rfl) ha)
        fun a ha t => kept.shapes.arm hs (.inl rfl) ha
    | switch subject =>
      exact kept.ending hs rfl <|
        (kept.eval n k line (hown (List.mem_singleton_self _))).bind fun v _ =>
          together_cases hcall children (fun a ha e => kept.shapes.armOwn hs (.inr ⟨_, rfl⟩) ha)
            (fun a ha t => kept.shapes.arm hs (.inr ⟨_, rfl⟩) ha) v (.pure (kept.flows.normal k))
    | forLoop name it =>
      refine kept.ending hs rfl <| (kept.together_itemsOf line fun _ => hown).bind fun items hv =>
        kept.together_inLoop (kept.together_iterate
          (fun turns items => items.size < turns ∧ items.All p.value)
          (fun _ h => absurd h.1 (Nat.not_lt_zero _)) (kept.together_nextItem hs rfl)
          (hbody rfl) _ _ ⟨Nat.lt_succ_self _, hv⟩)
    | whileLoop condition =>
      have hcondition : p.Together n (p.inBlock (p.inLoop k))
          (do return if (← Run.eval condition line).isTruthy then some () else none)
          (do return if (← Run.eval (p.view.expr condition) (p.view.line line)).isTruthy then some ()
            else none) fun _ => True :=
        (kept.eval n _ line (hown (List.mem_singleton_self _))).bind fun _ _ => .pure trivial
      rw [← kept.loopTurns]
      exact kept.ending hs rfl <| kept.together_inLoop <| kept.together_iterate (fun _ _ => True)
        (fun _ _ => kept.exhausted hs rfl)
        (fun _ _ _ => hcondition.mono fun _ _ _ _ => trivial) (hbody rfl) _ _ trivial
    | breakLoop => exact kept.ending hs rfl <| .pure (kept.flows.jump hs rfl).1
    | breakAll => exact kept.ending hs rfl <| .pure (kept.flows.jump hs rfl).2.1
    | continueLoop => exact kept.ending hs rfl <| .pure (kept.flows.jump hs rfl).2.2
    | returnValue value =>
      refine kept.ending hs rfl <| Together.bind (.evalOptional kept.values.null
        fun e he => kept.eval n k line (hown ?_)) fun v hv => .pure (kept.flows.give hs rfl hv)
      exact Option.mem_toList.mpr he
    | function name params => exact kept.ending hs rfl <| .pure (kept.flows.normal k)
    | call invocation =>
      exact kept.ending hs rfl <|
        (kept.together_callNamed hcall (fun _ => hown) line).bind fun _ _ =>
          .pure (kept.flows.normal k)
    | branch condition => exact kept.ending hs rfl <| kept.throw (kept.stray hs nofun line)
    | otherwise => exact kept.ending hs rfl <| kept.throw (kept.stray hs nofun line)
    | case_ value => exact kept.ending hs rfl <| kept.throw (kept.stray hs nofun line)
    | fallback => exact kept.ending hs rfl <| kept.throw (kept.stray hs nofun line)

theorem together_each (hcall : p.CallsTogether n call call') :
    ∀ {k : μ} (nodes : List Statement), (∀ s ∈ nodes, p.fits k s) →
      p.Together n k (runEach sv call nodes) (runEach sv' call' (p.view.statements nodes))
        (p.allows k)
  | k, [], _ => by
    rw [View.statements_nil]
    exact .pure (kept.flows.normal k)
  | k, s :: rest, hn => by
    obtain ⟨hs, hrest⟩ := List.forall_mem_cons.mp hn
    rw [View.statements_cons]
    unfold runEach
    rw [View.statement_line]
    refine (kept.deadline n k s.line).bind fun _ _ =>
      (kept.together_observed hs (leads_statement hcall s hs)).bind fun flow hf => ?_
    cases flow with
    | normal => exact together_each hcall rest hrest
    | _ => exact .pure hf

theorem together_body (hcall : p.CallsTogether n call call') :
    ∀ {k : μ} (a : Statement), (∀ t ∈ a.children, p.fits (p.inBlock k) t) →
      p.Together n k (runBody sv call a) (runBody sv' call' (p.view.statement a)) (p.allows k)
  | k, ⟨kind, shape, line, children⟩, ha => by
    rw [View.statement]
    unfold runBody
    exact (kept.together_inScope (kept.together_hoisted ha (together_each hcall children ha))).mono
      fun _ => kept.flows.block

theorem together_branches (hcall : p.CallsTogether n call call') :
    ∀ {k : μ} (arms : List Statement), (∀ a ∈ arms, ∀ e ∈ a.kind.expressions, p.reads e) →
      (∀ a ∈ arms, ∀ t ∈ a.children, p.fits (p.inBlock k) t) →
      p.Together n k (runBranches sv call arms) (runBranches sv' call' (p.view.statements arms))
        (p.allows k)
  | k, [], _, _ => by
    rw [View.statements_nil]
    exact .pure (kept.flows.normal k)
  | k, a :: rest, hreads, hfits => by
    obtain ⟨hown, hreads⟩ := List.forall_mem_cons.mp hreads
    obtain ⟨ha, hfits⟩ := List.forall_mem_cons.mp hfits
    have hbody := together_body hcall a ha
    have hrest := together_branches hcall rest hreads hfits
    rw [View.statements_cons]
    unfold runBranches
    rw [View.statement_kind, View.statement_line]
    cases hk : a.kind with
    | branch condition =>
      refine (kept.eval n k a.line (hown _ (by simp [hk, Kind.expressions]))).bind fun v _ => ?_
      split
      · exact hbody
      · exact hrest
    | otherwise => exact hbody
    | _ => exact hrest

theorem together_cases (hcall : p.CallsTogether n call call') :
    ∀ {k : μ} (arms : List Statement), (∀ a ∈ arms, ∀ e ∈ a.kind.expressions, p.reads e) →
      (∀ a ∈ arms, ∀ t ∈ a.children, p.fits (p.inBlock k) t) →
      ∀ (subject : Value) {fallback fallback' : Run Flow},
        p.Together n k fallback fallback' (p.allows k) →
        p.Together n k (runCases sv call subject fallback arms)
          (runCases sv' call' subject fallback' (p.view.statements arms)) (p.allows k)
  | k, [], _, _, _, _, _, hf => by
    rw [View.statements_nil]
    exact hf
  | k, a :: rest, hreads, hfits, subject, fallback, fallback', hf => by
    obtain ⟨hown, hreads⟩ := List.forall_mem_cons.mp hreads
    obtain ⟨ha, hfits⟩ := List.forall_mem_cons.mp hfits
    have hbody := together_body hcall a ha
    have hrest {fallback fallback' : Run Flow} (hf : p.Together n k fallback fallback' _) :=
      together_cases hcall rest hreads hfits subject hf
    rw [View.statements_cons]
    unfold runCases
    rw [View.statement_kind, View.statement_line]
    cases hk : a.kind with
    | case_ value =>
      refine (kept.eval n k a.line (hown _ (by simp [hk, Kind.expressions]))).bind fun v _ => ?_
      split
      · exact hbody
      · exact hrest hf
    | fallback => exact hrest hbody
    | _ => exact hrest hf

end

/-! ## Calls and whole runs -/

theorem together_list (hcall : p.CallsTogether n call call') {nodes : List Statement}
    (hn : ∀ s ∈ nodes, p.fits k s) :
    p.Together n k (runList sv call nodes) (runList sv' call' (p.view.statements nodes))
      (p.allows k) :=
  kept.together_hoisted hn (kept.together_each hcall nodes hn)

/-- Calls keep the pairing, however many may be made inside each other. -/
theorem calls_together : ∀ n, p.CallsTogether n (callFunction sv n) (callFunction sv' n) := by
  intro n
  induction n with
  | zero =>
    intro k f args line hf _
    have hstray := hf.2.2
    unfold Statement.kindName at hstray
    unfold callFunction
    rw [View.statement_kind]
    cases hk : f.kind with
    | function name params =>
      dsimp only [View.kind]
      split <;> exact kept.fail id
    | _ =>
      rw [hk] at hstray
      exact kept.throw (hstray nofun line)
  | succ n ih =>
    intro k f args line hf hargs
    have hstray := hf.2.2
    unfold Statement.kindName at hstray
    unfold callFunction
    rw [View.statement_kind]
    cases hk : f.kind with
    | function name params =>
      dsimp only [View.kind]
      split
      · exact kept.fail id
      · rw [View.statement_children]
        refine (kept.together_inCall hf hk hargs
          (kept.together_list ih (hf.2.1 name params hk))).bind fun flow hflow => ?_
        cases flow with
        | returned v => exact .pure (kept.flows.returned hflow)
        | _ => exact .pure kept.values.null
    | _ =>
      rw [hk] at hstray
      exact kept.throw (hstray nofun line)

theorem together_runStatement (n : Nat) {s : Statement} (hs : p.fits k s) :
    p.Leads (p.holds n k true) (runStatement sv (callFunction sv n) s)
      (runStatement sv' (callFunction sv' n) (p.view.statement s)) (p.allows k) (p.ends n k s) :=
  kept.leads_statement (kept.calls_together n) s hs

/-- Runs of statements that fit go in step. -/
theorem together_runList (n : Nat) {nodes : List Statement} (hn : ∀ s ∈ nodes, p.fits k s) :
    p.Together n k (runList sv (callFunction sv n) nodes)
      (runList sv' (callFunction sv' n) (p.view.statements nodes)) (p.allows k) :=
  kept.together_list (kept.calls_together n) hn

end Kept

end Pairing

end PipelineScript
