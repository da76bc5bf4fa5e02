import Mathlib.Data.List.Forall2
import PipelineScript.Proofs.Expression.Climbing
import PipelineScript.Proofs.Statement.Outside

/-! # Calls and their arguments

Commas outside of brackets divide the arguments of a call, and it makes no difference whether one
looks for these commas or reads one expression after the other. Main statement: a name with some
stretches in parentheses is the call with their trees, if each of them is one expression, and else
it is no expression at all (`Expression.ofLexemes_call_iff`). -/

namespace PipelineScript

namespace Lexeme

/-- The brackets nest, and no comma stands outside of them. -/
structure Undivided (ls : List Lexeme) : Prop where
  nest : nest [] ls = some []
  comma : punct .comma ∉ outside 0 ls

variable {ls ms : List Lexeme} {pieces : List (List Lexeme)}

theorem Undivided.ne_append_comma (h : Undivided ls) (hms : Lexeme.nest [] ms = some [])
    (more : List Lexeme) : ls ≠ ms ++ punct .comma :: more := by
  rintro rfl
  refine h.comma ?_
  rw [outside_behind hms]
  exact List.mem_append_right _ (mem_outside_self _ _)

/-- Brackets that nest do not close one that was open before. -/
theorem ne_append_closeParen (h : nest [] ls = some []) (hms : nest [] ms = some [])
    (more : List Lexeme) : ls ≠ ms ++ punct .closeParen :: more := by
  rintro rfl
  rw [nest_behind hms] at h
  cases h

theorem append_cons_inj {l : Lexeme} {us vs : List Lexeme} (h : ls ++ l :: us = ms ++ l :: vs)
    (hls : ∀ more, ls ≠ ms ++ l :: more) (hms : ∀ more, ms ≠ ls ++ l :: more) :
    ls = ms ∧ us = vs := by
  obtain ⟨more, hm, hrest⟩ | ⟨more, hm, hrest⟩ := List.append_eq_append_iff.mp h
  · cases more with
    | nil => simp_all
    | cons t more =>
      cases hrest
      exact absurd hm (hms more)
  · cases more with
    | nil => simp_all
    | cons t more =>
      cases hrest
      exact absurd hm (hls more)

theorem nest_intercalate (h : ∀ p ∈ pieces, nest [] p = some []) :
    nest [] (List.intercalate [punct .comma] pieces) = some [] := by
  induction pieces with
  | nil => rfl
  | cons p pieces ih =>
    obtain ⟨hp, hpieces⟩ := List.forall_mem_cons.mp h
    cases pieces with
    | nil => rwa [List.intercalate_singleton]
    | cons q pieces =>
      rw [List.intercalate_cons_cons, List.append_assoc, nest_behind hp, List.singleton_append,
        nest_flat ⟨rfl, rfl⟩, ih hpieces]

end Lexeme

namespace Expression

open Lexeme

variable {e : Expression} {es : List Expression} {name : String} {ps ts us : List Lexeme}
  {pieces : List (List Lexeme)}

/-! ## Lists of expressions -/

theorem Derives.undivided (h : Derives (.choice e) ts) : Undivided ts :=
  ⟨h.nest, fun hcomma => Bool.noConfusion (h.outside _ hcomma)⟩

theorem derives_items_iff (hp : Undivided ps) :
    Derives (.items es) ps ↔ ∃ e, es = [e] ∧ Derives (.choice e) ps := by
  constructor
  · intro h
    cases h with
    | last h => exact ⟨_, rfl, h⟩
    | more h _ => exact absurd rfl (hp.ne_append_comma h.nest _)
  · rintro ⟨e, rfl, h⟩
    exact .last h

/-- The first expression of several ends at the first comma outside of brackets. -/
theorem derives_items_append_iff (hp : Undivided ps) :
    Derives (.items es) (ps ++ punct .comma :: us) ↔
      ∃ e rest, es = e :: rest ∧ Derives (.choice e) ps ∧ Derives (.items rest) us := by
  constructor
  · intro h
    generalize hts : ps ++ punct .comma :: us = ts at h
    cases h with
    | last h => exact absurd hts.symm (h.undivided.ne_append_comma hp.nest us)
    | more h hrest =>
      obtain ⟨rfl, rfl⟩ := append_cons_inj hts (hp.ne_append_comma h.nest)
        (h.undivided.ne_append_comma hp.nest)
      exact ⟨_, _, rfl, h, hrest⟩
  · rintro ⟨e, rest, rfl, h, hrest⟩
    exact .more h hrest

theorem derives_items_intercalate_iff (hpieces : ∀ p ∈ ps :: pieces, Undivided p) :
    Derives (.items es) (List.intercalate [punct .comma] (ps :: pieces)) ↔
      List.Forall₂ (fun e p => Derives (.choice e) p) es (ps :: pieces) := by
  induction pieces generalizing ps es with
  | nil =>
    rw [List.intercalate_singleton, derives_items_iff (hpieces ps (by simp)),
      List.forall₂_cons_right_iff]
    simp [and_comm]
  | cons qs pieces ih =>
    obtain ⟨hp, hrest⟩ := List.forall_mem_cons.mp hpieces
    rw [List.intercalate_cons_cons, List.append_assoc, List.singleton_append,
      derives_items_append_iff hp, List.forall₂_cons_right_iff]
    simp only [ih hrest]
    grind

/-- The expressions of a list are what its commas divide. -/
theorem derives_list_intercalate_iff (hpieces : ∀ p ∈ pieces, p ≠ [] ∧ Undivided p) :
    Derives (.list es) (List.intercalate [punct .comma] pieces) ↔
      List.Forall₂ (fun e p => Derives (.choice e) p) es pieces := by
  cases pieces with
  | nil =>
    rw [List.forall₂_nil_right_iff]
    constructor
    · intro h
      cases h with
      | none => rfl
      | some h =>
        obtain ⟨⟨⟩⟩ | ⟨t, us, hts, -⟩ := h.start
        cases hts
    · rintro rfl
      exact .none
  | cons p pieces =>
    rw [← derives_items_intercalate_iff fun q hq => (hpieces q hq).2]
    constructor
    · intro h
      generalize hts : List.intercalate [punct .comma] (p :: pieces) = ts at h
      cases h with
      | none =>
        refine absurd ?_ (hpieces p List.mem_cons_self).1
        cases pieces with
        | nil => rwa [List.intercalate_singleton] at hts
        | cons q pieces =>
          rw [List.intercalate_cons_cons] at hts
          exact (List.append_eq_nil_iff.mp (List.append_eq_nil_iff.mp hts).1).1
      | some h => exact h
    · exact .some

/-! ## Calls -/

theorem reads_list_of_ofLexemes
    (h : ofLexemes (ident name :: punct .openParen :: ts) = .ok e) :
    ∃ es rest, Reads (.list es) ts (punct .closeParen :: rest) := by
  have hread := ofLexemes_eq_ok_iff.mp h
  obtain ⟨fuel, hfuel⟩ :
      ∃ fuel, 8 * ((ident name :: punct .openParen :: ts).length + 1) = fuel + 4 :=
    ⟨8 * ts.length + 20, by simp only [List.length_cons]; omega⟩
  rw [hfuel, readChoice] at hread
  obtain ⟨_, hbinary, -⟩ := bind_eq_ok.mp hread
  rw [readBinary] at hbinary
  obtain ⟨_, hunary, -⟩ := bind_eq_ok.mp hbinary
  simp only [readUnary] at hunary
  obtain ⟨_, hprimary, -⟩ := bind_eq_ok.mp hunary
  obtain ⟨⟨es, rest⟩, hlist, -⟩ := bind_eq_ok.mp hprimary
  exact ⟨es, rest, (sound fuel).list hlist⟩

/-- A list in parentheses behind a name is a call and nothing else. -/
theorem ofLexemes_call_list_iff (hts : nest [] ts = some []) :
    ofLexemes (ident name :: punct .openParen :: (ts ++ [punct .closeParen])) = .ok e ↔
      ∃ es, e = .call name es ∧ Derives (.list es) ts := by
  have hcall {es : List Expression} (h : Derives (.list es) ts) :
      ofLexemes (ident name :: punct .openParen :: (ts ++ [punct .closeParen])) =
        .ok (.call name es) := by
    refine ofLexemes_eq_ok_iff_derives.mpr ?_
    exact .plain ((Derives.operand (.unsigned (.whole (.call h)))).loosen (by decide))
  constructor
  · intro h
    obtain ⟨es, rest, used, hused, hlist⟩ := reads_list_of_ofLexemes h
    obtain ⟨rfl, -⟩ := append_cons_inj hused (ne_append_closeParen hts hlist.nest)
      (ne_append_closeParen hlist.nest hts)
    exact ⟨es, Except.ok.inj (h.symm.trans (hcall hlist)), hlist⟩
  · rintro ⟨es, rfl, h⟩
    exact hcall h

/-- A call is read if and only if every stretch between its commas is one expression. It has the
trees of these, in order. -/
theorem ofLexemes_call_iff (hpieces : ∀ p ∈ pieces, p ≠ [] ∧ Undivided p) :
    ofLexemes (ident name :: punct .openParen ::
        (List.intercalate [punct .comma] pieces ++ [punct .closeParen])) = .ok e ↔
      ∃ es, e = .call name es ∧ List.Forall₂ (fun e p => ofLexemes p = .ok e) es pieces := by
  rw [ofLexemes_call_list_iff (nest_intercalate fun p hp => (hpieces p hp).2.nest)]
  simp only [ofLexemes_eq_ok_iff_derives, derives_list_intercalate_iff hpieces]

end Expression

end PipelineScript
