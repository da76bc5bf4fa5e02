import PipelineScript.Finding
import PipelineScript.Proofs.Context.Views
import PipelineScript.Proofs.Run.Quiet
import PipelineScript.Proofs.Statement.Expressions

/-! # Pairings of runs

A pairing says what holds of the machines of two runs from step to step. The second run is given
the statements of the first one as they look through a view. It also says what the statements may
look like, how they may end, what their values may be and why the runs may stop. All of it depends
on a mode: where in the nesting of blocks, loops and functions a statement stands. A pairing is kept
(`Pairing.Kept`) if every single step takes machines that hold to machines that hold, with the same
result. -/

namespace PipelineScript

/-- The last thing that a statement of the kind does is to write to the context. -/
def Kind.isWrite : Kind → Bool
  | importPath .. | declare .. | assign .. | taskBlock .. | exportValue _ => true
  | _ => false

/-- The items that are listed have the property. -/
def Items.All (P : Value → Prop) : Items → Prop
  | listed vs => ∀ v ∈ vs, P v
  | counted .. => True

/-- Values that come of values with the property have it, too. -/
structure Value.Hereditary (P : Value → Prop) : Prop where
  null : P .null
  int (i) : P (.int i)
  items {v items} : P v → Items.ofValue? v = some items → items.All P

namespace Value.Hereditary

theorem trivial {P : Value → Prop} (h : ∀ v, P v) : Hereditary P where
  null := h _
  int _ := h _
  items {_ items} _ _ := by
    cases items with
    | listed vs => exact fun v _ => h v
    | counted next left => exact True.intro

theorem next {P : Value → Prop} (h : Hereditary P) {items rest : Items} {v : Value}
    (hitems : items.All P) (hnext : items.next? = some (v, rest)) : P v ∧ rest.All P := by
  unfold Items.next? at hnext
  split at hnext <;> cases hnext
  · exact List.forall_mem_cons.mp hitems
  · exact ⟨h.int _, True.intro⟩

end Value.Hereditary

structure Pairing (μ : Type) where
  /-- How the second run sees the statements. -/
  view : View := .plain
  inBlock : μ → μ := id
  inLoop : μ → μ := id
  inFunction : μ → μ := id
  /-- What an expression may look like. -/
  reads : SourceExpr → Prop := fun _ => True
  /-- What a statement may look like. -/
  fits : μ → Statement → Prop := fun _ _ => True
  /-- What the definition of a function may look like, apart from its body. -/
  defines : Statement → Prop := fun _ => True
  /-- What a value may be. -/
  value : Value → Prop := fun _ => True
  /-- How a statement may end. -/
  allows : μ → Flow → Prop := fun _ _ => True
  /-- Why the runs may stop, the first and the second one. -/
  halts : Halt → Halt → Prop
  /-- What holds of the two machines while so many calls may still be made inside each other, if
  the runs go on and if they stop. -/
  holds : Nat → μ → Bool → Machine → Machine → Prop
  /-- What holds of them where a statement has come to its end, and nothing is told of it yet. -/
  ends : Nat → μ → Statement → Bool → Machine → Machine → Prop := fun n k _ => holds n k

namespace Pairing

open Run

variable {μ : Type} {α β : Type} {p : Pairing μ}

/-- Both runs are given the same statements. -/
theorem statement_of_plain (h : p.view = .plain) (s : Statement) : p.view.statement s = s := by
  rw [h, View.statement_plain]

theorem statements_of_plain (h : p.view = .plain) (nodes : List Statement) :
    p.view.statements nodes = nodes := by
  rw [h, View.statements_plain]

/-! ## Steps that lead to machines that hold -/

/-- Both runs have come to the same result, which is as `post` says, or both have stopped. -/
inductive Meet (p : Pairing μ) (post : α → Prop) (last : Bool → Machine → Machine → Prop) :
    Except Halt α × Machine → Except Halt α × Machine → Prop
  | ok {a : α} {m m' : Machine} (ha : post a) (hm : last true m m') :
    Meet p post last (.ok a, m) (.ok a, m')
  | error {h h' : Halt} {m m' : Machine} (hh : p.halts h h') (hm : last false m m') :
    Meet p post last (.error h, m) (.error h', m')

/-- From machines of the first kind, the steps lead to machines of the last kind. -/
def Leads (p : Pairing μ) (first : Machine → Machine → Prop) (x y : Run α) (post : α → Prop)
    (last : Bool → Machine → Machine → Prop) : Prop :=
  ∀ m m', first m m' → p.Meet post last (x.run m) (y.run m')

/-- From machines that hold, the steps go to machines that hold. -/
def Together (p : Pairing μ) (n : Nat) (k : μ) (x y : Run α) (post : α → Prop) : Prop :=
  p.Leads (p.holds n k true) x y post (p.holds n k)

/-- The machines hold, and this is the value that the steps have just given. -/
structure Gave (p : Pairing μ) (n : Nat) (k : μ) (x y : Run α) (a : α) (m m' : Machine) :
    Prop where
  holds : p.holds n k true m m'
  run : ∃ k₁ k₂, p.holds n k true k₁ k₂ ∧ x.run k₁ = (.ok a, m) ∧ y.run k₂ = (.ok a, m')

section

variable {n : Nat} {k : μ} {post mid : α → Prop} {goal : β → Prop}
  {first : Machine → Machine → Prop} {last between : Bool → Machine → Machine → Prop} {x y : Run α}

namespace Meet

variable {r r' : Except Halt α × Machine}

theorem leaves (h : p.Meet post last r r') : last r.1.isOk r.2 r'.2 := by
  cases h with
  | ok _ hm => exact hm
  | error _ hm => exact hm

theorem gives (h : p.Meet post last r r') {a : α} (ha : r.1 = .ok a) : post a := by
  cases h with
  | ok hp _ =>
    cases ha
    exact hp
  | error => cases ha

theorem halts (h : p.Meet post last r r') {halt : Halt} (he : r.1 = .error halt) :
    ∃ halt', r'.1 = .error halt' ∧ p.halts halt halt' := by
  cases h with
  | ok => cases he
  | error hh _ =>
    cases he
    exact ⟨_, rfl, hh⟩

theorem of_fst_eq (h : r'.1 = r.1) (hh : ∀ halt, r.1 = .error halt → p.halts halt halt)
    (hp : ∀ a, r.1 = .ok a → post a) (hm : last r.1.isOk r.2 r'.2) : p.Meet post last r r' := by
  obtain ⟨_ | a, m⟩ := r <;> obtain ⟨_, m'⟩ := r' <;> cases h
  · exact .error (hh _ rfl) hm
  · exact .ok (hp _ rfl) hm

/-- If the runs stop for the same reason, they end alike. -/
theorem fst_eq (h : p.Meet post last r r') (heq : ∀ {h h'}, p.halts h h' → h' = h) :
    r'.1 = r.1 := by
  cases h with
  | ok => rfl
  | error hh _ => rw [heq hh]

/-- Something more is done to the machines, however the runs have ended. -/
theorem after {last' : Bool → Machine → Machine → Prop} {w w' : Machine}
    (h : p.Meet post last r r') (hlast : last r.1.isOk r.2 r'.2 → last' r.1.isOk w w') :
    p.Meet post last' (r.1, w) (r'.1, w') := by
  cases h with
  | ok ha hm => exact .ok ha (hlast hm)
  | error hh hm => exact .error hh (hlast hm)

theorem mono {post' : α → Prop} {last' : Bool → Machine → Machine → Prop}
    (h : p.Meet post last r r') (hpost : ∀ a, post a → post' a)
    (hlast : ∀ b m m', last b m m' → last' b m m') : p.Meet post' last' r r' := by
  cases h with
  | ok ha hm => exact .ok (hpost _ ha) (hlast _ _ _ hm)
  | error hh hm => exact .error hh (hlast _ _ _ hm)

end Meet

theorem Leads.pure {a : α} (ha : post a) (h : ∀ m m', first m m' → last true m m') :
    p.Leads first (pure a) (pure a) post last :=
  fun m m' hm => .ok ha (h m m' hm)

theorem Leads.bind {f g : α → Run β} (hx : p.Leads first x y mid between)
    (hf : ∀ a, mid a → p.Leads (between true) (f a) (g a) goal last)
    (hstop : ∀ m m', between false m m' → last false m m') :
    p.Leads first (x >>= f) (y >>= g) goal last := by
  intro m m' hm
  have hmeet := hx m m' hm
  rw [run_bind, run_bind]
  generalize x.run m = r at hmeet
  generalize y.run m' = r' at hmeet
  cases hmeet with
  | ok ha hm => exact hf _ ha _ _ hm
  | error hh hm => exact .error hh (hstop _ _ hm)

namespace Together

theorem pure {a : α} (ha : post a) : p.Together n k (pure a) (pure a) post :=
  Leads.pure ha fun _ _ hm => hm

theorem mono {post' : α → Prop} (hx : p.Together n k x y post) (hp : ∀ a, post a → post' a) :
    p.Together n k x y post' :=
  fun m m' hm => (hx m m' hm).mono hp fun _ _ _ h => h

theorem bind {f g : α → Run β} (hx : p.Together n k x y mid)
    (hf : ∀ a, mid a → p.Together n k (f a) (g a) goal) :
    p.Together n k (x >>= f) (y >>= g) goal :=
  Leads.bind hx hf fun _ _ h => h

/-- What is known of the results of the first step. -/
theorem and (hx : p.Together n k x y post) (h : ∀ m a m', x.run m = (.ok a, m') → mid a) :
    p.Together n k x y fun a => post a ∧ mid a := by
  intro m m' hm
  have hmeet := hx m m' hm
  have hmid := h m
  generalize x.run m = r at hmeet hmid
  generalize y.run m' = r' at hmeet
  cases hmeet with
  | ok ha hm => exact .ok ⟨ha, hmid _ _ rfl⟩ hm
  | error hh hm => exact .error hh hm

/-- What comes next is told how the value came about. -/
theorem bind_gave {f g : α → Run β} (hx : p.Together n k x y mid)
    (hf : ∀ a, mid a → p.Leads (p.Gave n k x y a) (f a) (g a) goal last)
    (hstop : ∀ m m', p.holds n k false m m' → last false m m') :
    p.Leads (p.holds n k true) (x >>= f) (y >>= g) goal last := by
  intro m m' hm
  have hmeet := hx m m' hm
  rw [run_bind, run_bind]
  rcases hr : x.run m with ⟨_ | a, k₁⟩ <;> rcases hr' : y.run m' with ⟨_ | a', k₂⟩ <;>
    rw [hr, hr'] at hmeet <;> cases hmeet
  case error.error hh hm => exact .error hh (hstop _ _ hm)
  case ok.ok ha hk => exact hf a ha _ _ ⟨hk, m, m', hm, hr, hr'⟩

/-- A step that first looks at the context. -/
theorem look {f g : Context → Run α}
    (hf : ∀ m m', p.holds n k true m m' → p.Together n k (f m.context) (g m'.context) post) :
    p.Together n k (context >>= f) (context >>= g) post :=
  fun m m' hm => hf m m' hm m m' hm

theorem moving {f g : Context → Context}
    (hf : ∀ m m', p.holds n k true m m' →
      p.holds n k true (m.moveTo (f m.context)) (m'.moveTo (g m'.context))) :
    p.Together n k (modifyContext f) (modifyContext g) fun _ => True :=
  fun m m' hm => .ok trivial (hf m m' hm)

theorem evalOptional {δ ε : Type} {eval : δ → Run Value} {eval' : ε → Run Value} {f : δ → ε}
    {value : Option δ} {post : Value → Prop} (hnull : post .null)
    (he : ∀ a, value = some a → p.Together n k (eval a) (eval' (f a)) post) :
    p.Together n k (evalOptional eval value) (Run.evalOptional eval' (value.map f)) post := by
  cases value with
  | none => exact .pure hnull
  | some a => exact he a rfl

end Together

end

/-! ## Pairings that are kept -/

/-- A statement that a name of a function may stand for: the calls of it keep the pairing, or at
least may stop the runs. -/
def Callable (p : Pairing μ) (k : μ) (f : Statement) : Prop :=
  p.defines f ∧
    (∀ name params, f.kind = .function name params → ∀ t ∈ f.children, p.fits (p.inFunction k) t) ∧
    ((∀ name params, f.kind ≠ .function name params) → ∀ line,
      p.halts (.fault line (.notFunction f.kindName))
        (.fault (p.view.line line) (.notFunction f.kindName)))

/-- How a statement or the body of a function has ended in both runs. -/
inductive Outcome (p : Pairing μ) (k : μ) : Bool → Except Halt Flow → Except Halt Flow → Prop
  | ok {flow : Flow} (h : p.allows k flow) : Outcome p k true (.ok flow) (.ok flow)
  | error {h h' : Halt} (hh : p.halts h h') : Outcome p k false (.error h) (.error h')

theorem Meet.outcome {k : μ} {last : Bool → Machine → Machine → Prop}
    {r r' : Except Halt Flow × Machine} (h : p.Meet (p.allows k) last r r') :
    p.Outcome k r.1.isOk r.1 r'.1 := by
  cases h with
  | ok ha _ => exact .ok ha
  | error hh _ => exact .error hh

/-- If the runs stop for the same reason, they end alike. -/
theorem Outcome.eq {k : μ} {b : Bool} {o o' : Except Halt Flow} (h : p.Outcome k b o o')
    (heq : ∀ {h h'}, p.halts h h' → h' = h) : o' = o := by
  cases h with
  | ok _ => rfl
  | error hh => rw [heq hh]

/-- What statements that fit are made of. -/
structure Shapes (p : Pairing μ) : Prop where
  own {k s e} : p.fits k s → e ∈ s.kind.expressions → p.reads e
  armOwn {k s a e} : p.fits k s → (s.kind = .conditional ∨ ∃ e, s.kind = .switch e) →
    a ∈ s.children → e ∈ a.kind.expressions → p.reads e
  arm {k s a t} : p.fits k s → (s.kind = .conditional ∨ ∃ e, s.kind = .switch e) →
    a ∈ s.children → t ∈ a.children → p.fits (p.inBlock k) t
  body {k s t} : p.fits k s → s.kind.isLoop → t ∈ s.children →
    p.fits (p.inBlock (p.inLoop k)) t

/-- How statements may end. -/
structure Flows (p : Pairing μ) : Prop where
  normal (k : μ) : p.allows k .normal
  jump {k s} : p.fits k s → s.kind.isLoopControl →
    p.allows k .broken ∧ p.allows k .brokenAll ∧ p.allows k .continued
  give {k s value v} : p.fits k s → s.kind = .returnValue value → p.value v →
    p.allows k (.returned v)
  block {k flow} : p.allows (p.inBlock k) flow → p.allows k flow
  loopReturned {k v} : p.allows (p.inBlock (p.inLoop k)) (.returned v) → p.allows k (.returned v)
  loopBrokenAll {n k m m'} : p.holds n (p.inLoop k) true m m' → 1 < m.context.loopDepth →
    p.allows k .brokenAll
  returned {k v} : p.allows (p.inFunction k) (.returned v) → p.value v

/-- Statements may look and end in any way. -/
theorem Flows.trivial (h : ∀ k flow, p.allows k flow) (hv : ∀ v, p.value v) : p.Flows :=
  ⟨fun _ => h _ _, fun _ _ => ⟨h _ _, h _ _, h _ _⟩, fun _ _ _ => h _ _, fun _ => h _ _,
    fun _ => h _ _, fun _ _ => h _ _, fun _ => hv _⟩

theorem Shapes.trivial (hreads : ∀ e, p.reads e) (hfits : ∀ k s, p.fits k s) : p.Shapes :=
  ⟨fun _ _ => hreads _, fun _ _ _ _ => hreads _, fun _ _ _ _ => hfits _ _, fun _ _ _ => hfits _ _⟩

/-- Every single step of the two runs, with what each of them is given, keeps the pairing. -/
structure Kept (p : Pairing μ) (sv sv' : Services) : Prop where
  loopTurns : sv'.loopTurns = sv.loopTurns
  tasks : sv'.tasks = sv.tasks
  shapes : p.Shapes
  flows : p.Flows
  values : Value.Hereditary p.value
  -- halts
  stop {n k m m'} : p.holds n k true m m' → p.holds n k false m m'
  fault (line cause) : ¬ (Halt.fault line cause).IsStray →
    p.halts (.fault line cause) (.fault (p.view.line line) cause)
  rangeBound (line type) (e : SourceExpr) : p.halts (.fault line (.rangeBound type e.source))
    (.fault (p.view.line line) (.rangeBound type (p.view.expr e).source))
  stray {k s} : p.fits k s → ArmOwner.ofArm? s.kind ≠ none → ∀ line,
    p.halts (.fault line (.strayArm s.kindName))
      (.fault (p.view.line line) (.strayArm s.kindName))
  exhausted {k s condition} : p.fits k s → s.kind = .whileLoop condition →
    p.halts .exhausted .exhausted
  -- steps that leave the context alone
  deadline (n k line) : p.Together n k (checkDeadline sv.limitMillis line)
    (checkDeadline sv'.limitMillis (p.view.line line)) fun _ => True
  eval {e} (n k line) : p.reads e →
    p.Together n k (eval e line) (eval (p.view.expr e) (p.view.line line)) p.value
  perform {name task args} (n k line) : Table.get? sv.tasks name = some task →
    (∀ a ∈ args, p.value a) → p.Together n k (perform sv line name task args)
      (perform sv' (p.view.line line) name task args) p.value
  workOff {jobs} (n k) : (∀ job ∈ jobs, (∃ name, Table.get? sv.tasks name = some job.task) ∧
    ∀ a ∈ job.args, p.value a) → p.Together n k (workOff sv jobs) (workOff sv' jobs) p.value
  echo (n k line message) : p.Together n k (echo sv.echoes line message)
    (echo sv'.echoes (p.view.line line) message) fun _ => True
  -- looks at the context
  function {n k m m'} (name) : p.holds n k true m m' →
    m'.context.function? name = (m.context.function? name).map p.view.statement ∧
      ∀ f, m.context.function? name = some f → p.Callable k f
  resolve {n k m m'} (name) : p.holds n k true m m' →
    m'.context.resolve name = m.context.resolve name
  declaredType {n k m m' s name value} : p.fits k s → s.kind = .assign name value →
    p.holds n k true m m' →
    m'.context.binding? name >>= Binding.declaredType =
      m.context.binding? name >>= Binding.declaredType
  loopDepth {n k m m'} : p.holds n k true m m' → m'.context.loopDepth = m.context.loopDepth
  -- ends of statements, those first that write
  importPath {n k m m' s path localName} : p.fits k s → s.kind = .importPath path localName →
    p.holds n k true m m' →
    p.ends n k s true
      (m.write s ((m.context.addImport localName path).declare localName (.handle path) none))
      (m'.write (p.view.statement s)
        ((m'.context.addImport localName path).declare localName (.handle path) none))
  declare {n k m m' s name declaredType value v call call'} : p.fits k s →
    s.kind = .declare name declaredType value → p.value v →
    (∀ t, declaredType = some t → v.matchesType? t ≠ some false) →
    p.Gave n k (evalOptional (evalSource sv call s.line) value)
      (evalOptional (evalSource sv' call' (p.view.line s.line)) (value.map p.view.source)) v m m' →
    p.ends n k s true (m.write s (m.context.declare name v declaredType))
      (m'.write (p.view.statement s) (m'.context.declare name v declaredType))
  assign {n k m m' s name value v call call'} : p.fits k s → s.kind = .assign name value →
    p.value v →
    (∀ b t, m.context.binding? name = some b → b.declaredType = some t →
      v.matchesType? t ≠ some false) →
    p.Gave n k (evalSource sv call s.line value)
      (evalSource sv' call' (p.view.line s.line) (p.view.source value)) v m m' →
    p.ends n k s true (m.write s (m.context.assign name v))
      (m'.write (p.view.statement s) (m'.context.assign name v))
  taskBlock {n k m m' s target tasks t} : p.fits k s → s.kind = .taskBlock target tasks →
    p.value (.map t) →
    p.Gave n k (runBlock sv tasks) (runBlock sv' (tasks.map p.view.entry)) (.map t) m m' →
    p.ends n k s true (m.write s (m.context.assign target (.map t)))
      (m'.write (p.view.statement s) (m'.context.assign target (.map t)))
  exportValue {n k m m' s e v} : p.fits k s → s.kind = .exportValue e → p.value v →
    p.Gave n k (Run.eval e s.line) (Run.eval (p.view.expr e) (p.view.line s.line)) v m m' →
    p.ends n k s true (m.write s (m.context.setExport v))
      (m'.write (p.view.statement s) (m'.context.setExport v))
  ended {n k s b m m'} : p.fits k s → (b = true → s.kind.isWrite = false) → p.holds n k b m m' →
    p.ends n k s b m m'
  -- blocks, loops and calls
  hoist {n k m m'} {nodes : List Statement} : (∀ s ∈ nodes, p.fits k s) → p.holds n k true m m' →
    p.holds n k true (m.moveTo (nodes.foldl bindDefinition m.context))
      (m'.moveTo ((p.view.statements nodes).foldl bindDefinition m'.context))
  push {n k m m'} : p.holds n k true m m' →
    p.holds n (p.inBlock k) true (m.moveTo (m.context.push .block))
      (m'.moveTo (m'.context.push .block))
  pop {n k b m m' w w'} : p.holds n k true m m' → p.holds n (p.inBlock k) b w w' →
    p.holds n k b (w.moveTo (w.context.popTo m.context.depth))
      (w'.moveTo (w'.context.popTo m'.context.depth))
  enterLoop {n k m m'} : p.holds n k true m m' →
    p.holds n (p.inLoop k) true (m.moveTo m.context.enterLoop) (m'.moveTo m'.context.enterLoop)
  exitLoop {n k b m m' w w'} : p.holds n k true m m' → p.holds n (p.inLoop k) b w w' →
    p.holds n k b (w.moveTo w.context.exitLoop) (w'.moveTo w'.context.exitLoop)
  item {n k m m' s name it v} : p.fits k s → s.kind = .forLoop name it → p.value v →
    p.holds n (p.inBlock (p.inLoop k)) true m m' →
    p.holds n (p.inBlock (p.inLoop k)) true (m.moveTo (m.context.declare name v none))
      (m'.moveTo (m'.context.declare name v none))
  enterCall {n k m m' f name params args} : p.Callable k f → f.kind = .function name params →
    (∀ a ∈ args, p.value a) → p.holds (n + 1) k true m m' →
    p.holds n (p.inFunction k) true (m.enterCall params args) (m'.enterCall params args)
  leaveCall {n k b m m' w w'} : p.holds (n + 1) k true m m' → p.holds n (p.inFunction k) b w w' →
    p.holds (n + 1) k b (m.leaveCall w) (m'.leaveCall w')
  -- events
  ran {n k s b m m' w w' o o'} : p.fits k s → p.holds n k true m m' → p.Outcome k b o o' →
    p.ends n k s b w w' →
    p.holds n k b (w.conclude s m o) (w'.conclude (p.view.statement s) m' o')
  called {n k f b m m' o o'} : p.Outcome (p.inFunction k) b o o' →
    p.holds n (p.inFunction k) b m m' →
    p.holds n (p.inFunction k) b (m.note (.called f o))
      (m'.note (.called (p.view.statement f) o'))

/-- What the runs have at hand for calls of functions. -/
def CallsTogether (p : Pairing μ) (n : Nat)
    (call call' : Statement → List Value → Nat → Run Value) : Prop :=
  ∀ k f args line, p.Callable k f → (∀ a ∈ args, p.value a) →
    p.Together n k (call f args line) (call' (p.view.statement f) args (p.view.line line)) p.value

end Pairing

end PipelineScript
