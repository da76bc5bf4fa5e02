import Mathlib
import PipelineScript.Evaluation

/-! # Integer arithmetic

The value of a tree of integer arithmetic, with no bound on the integers, and the operations of the
tree in the order in which they are done. Main statement: `Expression.eval_arithmetic`. Such a tree
has its exact value, or fails as the first of its operations that fails. -/

namespace PipelineScript

/-- The integers of 64 bits. -/
def InRange (i : Int) : Prop := -2 ^ 63 ≤ i ∧ i < 2 ^ 63

instance (i : Int) : Decidable (InRange i) := inferInstanceAs (Decidable (_ ∧ _))

namespace BinaryOp

def IsArithmetic (op : BinaryOp) : Prop :=
  op = add ∨ op = subtract ∨ op = multiply ∨ op = divide ∨ op = remainder

/-- The exact result. A quotient is rounded toward zero, and the remainder belongs to it. -/
def exactValue? (op : BinaryOp) (a b : Int) : Option Int :=
  match op with
  | add => some (a + b)
  | subtract => some (a - b)
  | multiply => some (a * b)
  | divide => if b = 0 then none else some (a.tdiv b)
  | remainder => if b = 0 then none else some (a.tmod b)
  | _ => none

end BinaryOp

namespace Expression

/-- A tree of integer literals, variables and arithmetic, in which no variable is bound to anything
but an integer. -/
inductive IsArithmetic (vars : String → Option Value) : Expression → Prop
  | literal (i : Int64) : IsArithmetic vars (literal (.int i))
  | variable_ {name : String} :
      (∀ v, vars name = some v → ∃ i, v = .int i) → IsArithmetic vars (variable_ name)
  | negate {e : Expression} : IsArithmetic vars e → IsArithmetic vars (unary .negate e)
  | binary {op : BinaryOp} {left right : Expression} : op.IsArithmetic →
      IsArithmetic vars left → IsArithmetic vars right → IsArithmetic vars (binary op left right)

/-- The value of a tree over all integers. -/
def exactValue? (vars : String → Option Value) : Expression → Option Int
  | literal (.int i) => some i.toInt
  | variable_ name =>
    match vars name with
    | some (.int i) => some i.toInt
    | _ => none
  | unary .negate e => (exactValue? vars e).map (- ·)
  | binary op left right => do op.exactValue? (← exactValue? vars left) (← exactValue? vars right)
  | _ => none

/-- The operations of a tree in the order in which they are done: from left to right, the operands
before what is done with them. -/
def operations : Expression → List Expression
  | unary op e => operations e ++ [unary op e]
  | binary op left right => operations left ++ operations right ++ [binary op left right]
  | e => [e]

section

variable (vars : String → Option Value) (o : Expression)

/-! ## How an operation fails -/

def ReadsUnbound : Prop := ∃ name, o = variable_ name ∧ vars name = none

def DividesByZero : Prop :=
  ∃ op left right, o = binary op left right ∧ (op = .divide ∨ op = .remainder) ∧
    exactValue? vars right = some 0

/-- The result is out of range, or it is the remainder of a quotient that is. -/
def Overflows : Prop :=
  (∃ i, exactValue? vars o = some i ∧ ¬ InRange i) ∨
    ∃ left right, o = binary .remainder left right ∧ exactValue? vars left = some (-2 ^ 63) ∧
      exactValue? vars right = some (-1)

def Fails : Prop := ReadsUnbound vars o ∨ DividesByZero vars o ∨ Overflows vars o

/-- The fault says how the operation fails. -/
structure Reports (fault : EvalFault) : Prop where
  fails : Fails vars o
  divisionByZero : fault.kind = .divisionByZero ↔ DividesByZero vars o
  overflow : fault.message = "integer overflow" ↔ Overflows vars o
  undefinedVariable : fault.kind = .undefinedVariable ↔ ReadsUnbound vars o

end

variable {vars : String → Option Value} {o left right : Expression} {op : BinaryOp}

theorem exactValue?_binary {a b : Int} (ha : exactValue? vars left = some a)
    (hb : exactValue? vars right = some b) :
    exactValue? vars (binary op left right) = op.exactValue? a b := by
  rw [exactValue?, ha, hb]
  rfl

/-- An operation that fails in one way has no result and fails in no other way. -/
theorem DividesByZero.exactValue?_eq_none (h : DividesByZero vars o) :
    exactValue? vars o = none := by
  obtain ⟨op, left, right, rfl, hop, hright⟩ := h
  rw [exactValue?, hright]
  cases exactValue? vars left with
  | none => rfl
  | some a => obtain rfl | rfl := hop <;> rfl

theorem ReadsUnbound.exactValue?_eq_none (h : ReadsUnbound vars o) : exactValue? vars o = none := by
  obtain ⟨name, rfl, hname⟩ := h
  rw [exactValue?, hname]

theorem not_overflows_of_dividesByZero (h : DividesByZero vars o) : ¬ Overflows vars o := by
  rintro (⟨i, hi, -⟩ | ⟨left, right, rfl, -, hright⟩)
  · rw [h.exactValue?_eq_none] at hi
    cases hi
  · obtain ⟨_, _, _, heq, -, hzero⟩ := h
    cases heq
    rw [hright] at hzero
    cases hzero

theorem not_overflows_of_readsUnbound (h : ReadsUnbound vars o) : ¬ Overflows vars o := by
  rintro (⟨i, hi, -⟩ | ⟨left, right, rfl, -, -⟩)
  · rw [h.exactValue?_eq_none] at hi
    cases hi
  · obtain ⟨_, heq, -⟩ := h
    cases heq

theorem not_dividesByZero_of_readsUnbound (h : ReadsUnbound vars o) : ¬ DividesByZero vars o := by
  obtain ⟨name, rfl, -⟩ := h
  rintro ⟨_, _, _, heq, -⟩
  cases heq

theorem message_undefinedVariable (name : String) :
    (EvalFault.undefinedVariable name).message ≠ "integer overflow" := by
  intro h
  have hlist : ("undefined variable '" ++ name ++ "'").toList = "integer overflow".toList :=
    congrArg String.toList h
  rw [String.toList_append, String.toList_append] at hlist
  have hfirst := congrArg List.head? hlist
  simp only [String.reduceToList, List.cons_append, List.head?_cons] at hfirst
  cases hfirst

theorem reports_undefinedVariable {name : String} (h : vars name = none) :
    Reports vars (variable_ name) (.undefinedVariable name) := by
  have hreads : ReadsUnbound vars (variable_ name) := ⟨name, rfl, h⟩
  exact ⟨.inl hreads, iff_of_false nofun (not_dividesByZero_of_readsUnbound hreads),
    iff_of_false (message_undefinedVariable name) (not_overflows_of_readsUnbound hreads),
    iff_of_true rfl hreads⟩

theorem reports_divisionByZero (h : DividesByZero vars o) : Reports vars o .divisionByZero :=
  ⟨.inr (.inl h), iff_of_true rfl h,
    iff_of_false (by decide) (not_overflows_of_dividesByZero h),
    iff_of_false (by decide) fun hreads => not_dividesByZero_of_readsUnbound hreads h⟩

theorem reports_overflow (h : Overflows vars o) : Reports vars o .overflow :=
  ⟨.inr (.inr h), iff_of_false (by decide) fun hzero => not_overflows_of_dividesByZero hzero h,
    iff_of_true rfl h,
    iff_of_false (by decide) fun hreads => not_overflows_of_readsUnbound hreads h⟩

/-! ## One operation -/

/-- The operation, with operands that have their exact values, gives its exact result or reports how
it fails. -/
def Done (vars : String → Option Value) (o : Expression) (result : Except EvalFault Value) : Prop :=
  (∃ r, result = .ok (.int r) ∧ exactValue? vars o = some r.toInt ∧ ¬ Fails vars o) ∨
    ∃ fault, result = .error fault ∧ Reports vars o fault

theorem inRange_toInt (w : Int64) : InRange w.toInt := ⟨w.le_toInt, w.toInt_lt⟩

/-- What has a result fails only by the range. -/
theorem not_fails_of_exactValue? {i : Int} (h : exactValue? vars o = some i)
    (hno : ¬ Overflows vars o) :
    ¬ Fails vars o := by
  rintro (hreads | hzero | hover)
  · rw [hreads.exactValue?_eq_none] at h
    cases h
  · rw [hzero.exactValue?_eq_none] at h
    cases h
  · exact hno hover

/-- Only remainders overflow with a result in range. -/
theorem done_ofExact {i : Int} (h : exactValue? vars o = some i)
    (ho : ∀ left right, o = binary .remainder left right → exactValue? vars left = some (-2 ^ 63) →
      exactValue? vars right ≠ some (-1)) : Done vars o (Value.ofExact i) := by
  unfold Value.ofExact
  cases hw : Numeral.toInt64? i with
  | some w =>
    have hvalue := Numeral.toInt_of_toInt64? hw
    refine .inl ⟨w, rfl, hvalue ▸ h, not_fails_of_exactValue? h ?_⟩
    rintro (⟨j, hj, hrange⟩ | ⟨left, right, heq, hleft, hright⟩)
    · obtain rfl : i = j := Option.some.inj (h.symm.trans hj)
      exact hrange (hvalue ▸ inRange_toInt w)
    · exact ho left right heq hleft hright
  | none =>
    refine .inr ⟨.overflow, rfl, reports_overflow (.inl ⟨i, h, fun hrange => ?_⟩)⟩
    exact Numeral.toInt64?_eq_none_iff.mp hw ⟨hrange.1, Int.lt_add_one_iff.mp hrange.2⟩

theorem done_literal (i : Int64) : Done vars (literal (.int i)) (.ok (.int i)) := by
  refine .inl ⟨i, rfl, rfl, not_fails_of_exactValue? (i := i.toInt) rfl ?_⟩
  rintro (⟨j, hj, hrange⟩ | ⟨_, _, heq, -, -⟩)
  · cases hj
    exact hrange (inRange_toInt i)
  · cases heq

theorem done_variable {name : String} (h : ∀ v, vars name = some v → ∃ i, v = .int i) :
    Done vars (variable_ name) (eval vars (variable_ name)) := by
  rw [eval]
  cases hname : vars name with
  | none => exact .inr ⟨_, rfl, reports_undefinedVariable hname⟩
  | some v =>
    obtain ⟨i, rfl⟩ := h v hname
    have hexact : exactValue? vars (variable_ name) = some i.toInt := by rw [exactValue?, hname]
    refine .inl ⟨i, rfl, hexact, not_fails_of_exactValue? hexact ?_⟩
    rintro (⟨j, hj, hrange⟩ | ⟨_, _, heq, -, -⟩)
    · obtain rfl : i.toInt = j := Option.some.inj (hexact.symm.trans hj)
      exact hrange (inRange_toInt i)
    · cases heq

theorem done_negate {e : Expression} {a : Int64} (h : exactValue? vars e = some a.toInt) :
    Done vars (unary .negate e) (UnaryOp.negate.apply (.int a)) :=
  done_ofExact (by rw [exactValue?, h]; rfl) nofun

/-- A quotient is in range, but for that of the least integer and minus one. -/
theorem inRange_tdiv_iff {a b : Int} (ha : InRange a) (hb : b ≠ 0) :
    InRange (a.tdiv b) ↔ ¬ (a = -2 ^ 63 ∧ b = -1) := by
  unfold InRange at *
  by_cases hminus : b = -1
  · subst hminus
    rw [Int.tdiv_neg, Int.tdiv_one]
    omega
  · have hsize : (a.tdiv b).natAbs = a.natAbs / b.natAbs := Int.natAbs_tdiv a b
    by_cases hone : b = 1
    · subst hone
      rw [Int.tdiv_one]
      omega
    · have hhalf : a.natAbs / b.natAbs ≤ a.natAbs / 2 :=
        Nat.div_le_div_left (by omega) (by decide)
      omega

theorem fits_iff {i : Int} : Numeral.fits i = true ↔ InRange i := by
  have hmin : Int64.minValue.toInt = -2 ^ 63 := by decide
  have hmax : Int64.maxValue.toInt = 2 ^ 63 - 1 := by decide
  simp only [Numeral.fits, hmin, hmax, Bool.and_eq_true, decide_eq_true_eq, InRange]
  omega

theorem done_remainder {a b : Int64} (ha : exactValue? vars left = some a.toInt)
    (hb : exactValue? vars right = some b.toInt) :
    Done vars (binary .remainder left right) (BinaryOp.remainder.apply (.int a) (.int b)) := by
  show Done _ _ (if b.toInt = 0 then _ else _)
  by_cases hzero : b.toInt = 0
  · rw [if_pos hzero]
    rw [hzero] at hb
    exact .inr ⟨_, rfl, reports_divisionByZero ⟨_, _, _, rfl, .inr rfl, hb⟩⟩
  · rw [if_neg hzero]
    have hquotient := inRange_tdiv_iff (inRange_toInt a) hzero
    by_cases hfits : Numeral.fits (a.toInt.tdiv b.toInt) = true
    · rw [if_pos hfits]
      refine done_ofExact ((exactValue?_binary ha hb).trans (if_neg hzero)) ?_
      rintro _ _ heq hleft hright
      cases heq
      exact hquotient.mp (fits_iff.mp hfits)
        ⟨Option.some.inj (ha.symm.trans hleft), Option.some.inj (hb.symm.trans hright)⟩
    · rw [if_neg hfits]
      obtain ⟨hleft, hright⟩ := Classical.not_not.mp
        (mt hquotient.mpr (mt fits_iff.mpr hfits))
      rw [hleft] at ha
      rw [hright] at hb
      exact .inr ⟨_, rfl, reports_overflow (.inr ⟨_, _, rfl, ha, hb⟩)⟩

theorem done_binary {a b : Int64} (hop : op.IsArithmetic)
    (ha : exactValue? vars left = some a.toInt) (hb : exactValue? vars right = some b.toInt) :
    Done vars (binary op left right) (op.apply (.int a) (.int b)) := by
  have hexact : exactValue? vars (binary op left right) = op.exactValue? a.toInt b.toInt :=
    exactValue?_binary ha hb
  obtain rfl | rfl | rfl | rfl | rfl := hop
  · exact done_ofExact hexact nofun
  · exact done_ofExact hexact nofun
  · exact done_ofExact hexact nofun
  · show Done _ _ (if b.toInt = 0 then _ else _)
    by_cases hzero : b.toInt = 0
    · rw [if_pos hzero]
      rw [hzero] at hb
      exact .inr ⟨_, rfl, reports_divisionByZero ⟨_, _, _, rfl, .inl rfl, hb⟩⟩
    · rw [if_neg hzero]
      exact done_ofExact (hexact.trans (if_neg hzero)) nofun
  · exact done_remainder ha hb

/-! ## One operation after another -/

/-- The result is the exact value of the tree, and none of the operations fails; or it is the fault
of the first operation that does. -/
def Settles (vars : String → Option Value) (e : Expression) (result : Except EvalFault Value)
    (ops : List Expression) : Prop :=
  (∃ r, result = .ok (.int r) ∧ exactValue? vars e = some r.toInt ∧ ∀ o ∈ ops, ¬ Fails vars o) ∨
    ∃ fault before o after, result = .error fault ∧ ops = before ++ o :: after ∧
      (∀ b ∈ before, ¬ Fails vars b) ∧ Reports vars o fault

/-- The last operation, after others that do not fail. -/
theorem settles_of_done {result : Except EvalFault Value} {before : List Expression}
    (hbefore : ∀ b ∈ before, ¬ Fails vars b) (h : Done vars o result) :
    Settles vars o result (before ++ [o]) := by
  obtain ⟨r, hr, hexact, ho⟩ | ⟨fault, hr, hreports⟩ := h
  · exact .inl ⟨r, hr, hexact, List.forall_mem_append.mpr
      ⟨hbefore, List.forall_mem_singleton.mpr ho⟩⟩
  · exact .inr ⟨fault, before, o, [], hr, rfl, hbefore, hreports⟩

/-- An operation that fails is not made up for by later ones. -/
theorem settles_of_fault {e : Expression} {fault : EvalFault}
    {ops before after more : List Expression}
    (hops : ops = before ++ o :: after) (hbefore : ∀ b ∈ before, ¬ Fails vars b)
    (hreports : Reports vars o fault) : Settles vars e (.error fault) (ops ++ more) :=
  .inr ⟨fault, before, o, after ++ more, rfl, by simp [hops], hbefore, hreports⟩

theorem settles_negate {e : Expression} (h : Settles vars e (eval vars e) (operations e)) :
    Settles vars (unary .negate e) (eval vars (unary .negate e))
      (operations (unary .negate e)) := by
  obtain ⟨a, hr, hexact, hops⟩ | ⟨fault, before, o, after, hr, hops, hbefore, hreports⟩ := h
  · rw [eval, hr]
    exact settles_of_done hops (done_negate hexact)
  · rw [eval, hr]
    exact settles_of_fault hops hbefore hreports

theorem eval_binary (hop : op.IsArithmetic) : eval vars (binary op left right) =
    (do let a ← eval vars left; let b ← eval vars right; op.apply a b) := by
  obtain rfl | rfl | rfl | rfl | rfl := hop <;> rfl

theorem settles_binary (hop : op.IsArithmetic)
    (hleft : Settles vars left (eval vars left) (operations left))
    (hright : Settles vars right (eval vars right) (operations right)) :
    Settles vars (binary op left right) (eval vars (binary op left right))
      (operations (binary op left right)) := by
  rw [eval_binary hop, operations]
  obtain ⟨a, ha, hexacta, hopsa⟩ | ⟨fault, before, o, after, hr, hops, hbefore, hreports⟩ := hleft
  · rw [ha]
    obtain ⟨b, hb, hexactb, hopsb⟩ | ⟨fault, before, o, after, hr, hops, hbefore, hreports⟩ :=
      hright
    · rw [hb]
      exact settles_of_done (List.forall_mem_append.mpr ⟨hopsa, hopsb⟩)
        (done_binary hop hexacta hexactb)
    · rw [hr]
      have hboth : operations left ++ operations right =
          (operations left ++ before) ++ o :: after := by
        rw [hops, List.append_assoc]
      exact settles_of_fault hboth (List.forall_mem_append.mpr ⟨hopsa, hbefore⟩) hreports
  · rw [hr, List.append_assoc]
    exact settles_of_fault hops hbefore hreports

/-- Integer arithmetic gives the exact value of a tree, and then no operation fails. Or it fails,
and the fault is that of the first operation that fails: a division by zero, a result out of range
or a variable that is not bound. -/
theorem eval_arithmetic {e : Expression} (h : IsArithmetic vars e) :
    (∃ r, eval vars e = .ok (.int r) ∧ exactValue? vars e = some r.toInt ∧
      ∀ o ∈ operations e, ¬ Fails vars o) ∨
    ∃ fault before o after, eval vars e = .error fault ∧ operations e = before ++ o :: after ∧
      (∀ b ∈ before, ¬ Fails vars b) ∧ Reports vars o fault := by
  show Settles vars e (eval vars e) (operations e)
  induction h with
  | literal i => exact settles_of_done (List.forall_mem_nil _) (done_literal i)
  | variable_ hname => exact settles_of_done (List.forall_mem_nil _) (done_variable hname)
  | negate _ ih => exact settles_negate ih
  | binary hop _ _ ihleft ihright => exact settles_binary hop ihleft ihright

/-- The remainder of the least integer by minus one, before a variable that is not bound and a
division by zero. -/
theorem eval_arithmetic_leftmost :
    let vars : String → Option Value := fun name =>
      if name = "x" then some (.int Int64.minValue) else none
    let remainder := binary .remainder (variable_ "x") (unary .negate (literal (.int 1)))
    let quotient := binary .divide (variable_ "y") (literal (.int 0))
    IsArithmetic vars (binary .add remainder quotient) ∧
      ∃ fault before o after, eval vars (binary .add remainder quotient) = .error fault ∧
        operations (binary .add remainder quotient) = before ++ o :: after ∧
        (∀ b ∈ before, ¬ Fails vars b) ∧ Reports vars o fault := by
  intro vars remainder quotient
  have hx : IsArithmetic vars (variable_ "x") :=
    .variable_ fun v hv => ⟨_, (Option.some.inj hv).symm⟩
  have hy : IsArithmetic vars (variable_ "y") := .variable_ nofun
  have hremainder : IsArithmetic vars remainder := .binary (by simp [BinaryOp.IsArithmetic]) hx
    (.negate (.literal 1))
  have hquotient : IsArithmetic vars quotient := .binary (by simp [BinaryOp.IsArithmetic]) hy
    (.literal 0)
  have htree : IsArithmetic vars (binary .add remainder quotient) :=
    .binary (.inl rfl) hremainder hquotient
  refine ⟨htree, (eval_arithmetic htree).resolve_left ?_⟩
  rintro ⟨r, hr, -⟩
  have hfault : eval vars (binary .add remainder quotient) = .error .overflow := rfl
  rw [hfault] at hr
  cases hr

end Expression

end PipelineScript
