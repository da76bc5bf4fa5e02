import Mathlib
import PipelineScript.Proofs.Statement.Comments
import PipelineScript.Proofs.Statement.Following
import PipelineScript.Proofs.Statement.Quotes
import PipelineScript.Proofs.Token.Joins

/-! # Scripts one behind the other

A text inside another one has the same tokens there, further down and further on, and the same
slices. So two scripts with a line feed between them are read as one script with the statements of
both (`Statement.ofSource_append`). -/

namespace PipelineScript

open Text

/-- What is passed over may be passed over step by step. -/
theorem Cursor.skipWhile_advance {c : Cursor} {p : Token → Bool} {n : Nat}
    (h : ∀ t ∈ c.ahead.take n, p t = true) : (c.advance n).skipWhile p = c.skipWhile p := by
  have hrun : c.ahead.takeWhile p = c.ahead.take n ++ (c.ahead.drop n).takeWhile p := by
    conv => lhs; rw [← List.take_append_drop n c.ahead]
    exact List.takeWhile_append_of_pos h
  have hrest : c.ahead.dropWhile p = (c.ahead.drop n).dropWhile p := by
    conv => lhs; rw [← List.take_append_drop n c.ahead]
    exact List.dropWhile_append_of_pos h
  have htake (ts : List Token) : ts.take (ts.takeWhile p).length = ts.takeWhile p :=
    (List.prefix_iff_eq_take.mp (List.takeWhile_prefix p)).symm
  have hahead : ((c.advance n).skipWhile p).ahead = (c.skipWhile p).ahead := by
    rw [ahead_skipWhile, ahead_skipWhile, hrest]
    rfl
  have hpassed : ((c.advance n).skipWhile p).passed = (c.skipWhile p).passed := by
    show ((c.ahead.drop n).take _).reverse ++ ((c.ahead.take n).reverse ++ c.passed) =
      (c.ahead.take _).reverse ++ c.passed
    rw [show (c.advance n).ahead = c.ahead.drop n from rfl, htake, htake, hrun,
      List.reverse_append, List.append_assoc]
  have heq {x y : Cursor} (hs : x.source = y.source) (hp : x.passed = y.passed)
      (ha : x.ahead = y.ahead) : x = y := by
    cases x; cases y; cases hs; cases hp; cases ha; rfl
  exact heq rfl hpassed hahead

namespace Statement

open Twin Reading

variable {w : Twin} {c c' : Cursor}

/-- Statements are looked for behind the line ends. -/
theorem readList_succ (n : Nat) (terminator : Terminator) (c : Cursor) :
    readList (n + 1) terminator c =
      (match (c.skipWhile Token.isLineEnd).head? with
        | none => if terminator = Terminator.endOfText then (return [] : Reading (List Statement))
          else fail .openBlock
        | some token =>
          if terminator.stopsAt token then return []
          else if terminator = Terminator.endOfText ∧ token.isPunct .closeBrace then fail .strayClose
          else do
            let statement ← readOne (readList n) token
            return statement :: (← readList n terminator)) (c.skipWhile Token.isLineEnd) := by
  rw [readList]
  rfl

theorem readOne_of_none {block : Terminator → Reading (List Statement)} (token : Token)
    (h : rule? block c = none) :
    readOne block token c = .error (c.diagnose (.unrecognized token.shown)) := by
  have hget (f : Cursor → Reading Statement) : (get >>= f) c = f c c := rfl
  unfold readOne
  rw [hget, h]
  rfl

theorem readList_advance {n k : Nat} {terminator : Terminator}
    (h : ∀ t ∈ c.ahead.take k, t.isLineEnd = true) :
    readList (n + 1) terminator (c.advance k) = readList (n + 1) terminator c := by
  rw [readList_succ, readList_succ, Cursor.skipWhile_advance h]

/-- Where nothing is ahead there are no statements. -/
theorem exists_readList_nil {k : Nat} (hk : 1 ≤ k) {x : Cursor} (hx : x.ahead = []) :
    ∃ c₂, readList k .endOfText x = .ok ([], c₂) := by
  obtain ⟨text, passed, ahead⟩ := x
  obtain rfl : ahead = [] := hx
  obtain ⟨k, rfl⟩ : ∃ m, k = m + 1 := ⟨k - 1, by omega⟩
  exact ⟨_, readList_succ k _ _⟩

/-- A script does not begin with a further arm of a conditional. -/
theorem noElse_of_readList {n : Nat} {ss : List Statement} {c₁ : Cursor}
    (h : readList n .endOfText c = .ok (ss, c₁)) : NoElse c.ahead := by
  cases n with
  | zero => cases h
  | succ n =>
    intro t ht
    rw [← Cursor.ahead_skipWhile] at ht
    have hhead : (c.skipWhile Token.isLineEnd).head? = some t := ht
    cases helse : t.isKeyword .else_ with
    | false => rfl
    | true =>
      have hl : t.lexeme = .keyword .else_ := of_decide_eq_true helse
      have hbrace : t.isPunct .closeBrace = false := by rw [Token.isPunct, hl]; rfl
      have hrule (block : Terminator → Reading (List Statement)) :
          rule? block (c.skipWhile Token.isLineEnd) = none := by
        rw [rule?, hhead, Option.map_some, hl]
        rfl
      have hone := readOne_of_none t (hrule (readList n))
      rw [readList_succ, hhead] at h
      dsimp only at h
      rw [if_neg (by simp [Terminator.stopsAt]), if_neg (by simp [hbrace])] at h
      obtain ⟨s, c₂, hs, -⟩ := bind_eq_ok.mp h
      cases hone.symm.trans hs

/-- The statements of the first text are read in the second one, and behind them the statements
`us` that stand there. -/
theorem readList_mirror {us : List Statement} {m n n' : Nat} (helse : NoElse w.tail)
    (hrest : ∀ k ≥ m, ∀ x : Cursor, x.source = w.text' → x.ahead = w.tail →
      ∃ c₂, readList k .endOfText x = .ok (us, c₂))
    (hm : 0 < m) (hn : n + m ≤ n' + 1) (hc : w.Facing c c') {ss : List Statement} {c₁ : Cursor}
    (h : readList n .endOfText c = .ok (ss, c₁)) :
    ∃ ss' c₂, readList n' .endOfText c' = .ok (ss' ++ us, c₂) ∧ SameTrees w ss ss' := by
  induction n generalizing n' c c' ss c₁ with
  | zero => cases h
  | succ n ih =>
    have hline : ∀ t t' : Token, t.lexeme.Alike t'.lexeme → t'.isLineEnd = t.isLineEnd :=
      fun _ _ => Token.isLineEnd_alike
    obtain ⟨k, rfl⟩ : ∃ k, n' = k + 1 := ⟨n' - 1, by omega⟩
    rw [readList_succ] at h
    by_cases hne : (c.skipWhile Token.isLineEnd).ahead = []
    · -- the first text has ended, and the second one goes on behind the line ends
      rw [Cursor.head?, hne] at h
      cases h
      obtain ⟨ps, hrow, hrow', hps⟩ := hc.row
      have hgap : ∀ t ∈ c'.ahead.take ps.length, t.isLineEnd = true := by
        rw [hrow', List.take_left' (List.length_map _)]
        intro t ht
        obtain ⟨p, hp, rfl⟩ := List.mem_map.mp ht
        have hall : c.ahead.takeWhile Token.isLineEnd = c.ahead := by
          rw [Cursor.ahead_skipWhile] at hne
          simpa [hne] using List.takeWhile_append_dropWhile (p := Token.isLineEnd) (l := c.ahead)
        have hmem := List.all_eq_true.mp (List.all_takeWhile (p := Token.isLineEnd) (l := c.ahead))
        rw [hall, hrow] at hmem
        rw [hline _ _ (hps.lexeme p hp)]
        exact hmem p.1 (List.mem_map_of_mem hp)
      obtain ⟨c₂, hc₂⟩ := hrest (k + 1) (by omega) (c'.advance ps.length) hc.source' (by
        show c'.ahead.drop ps.length = w.tail
        rw [hrow', List.drop_left' (List.length_map _)])
      rw [readList_advance hgap] at hc₂
      exact ⟨[], c₂, hc₂, sameTrees_nil⟩
    · obtain ⟨t, t', ht, ht', hl, -⟩ := (hc.skipWhile hline hne).head_of_ne_nil hne
      rw [ht] at h
      dsimp only at h
      rw [if_neg (by simp [Terminator.stopsAt])] at h
      split at h
      · cases h
      rename_i hbrace
      obtain ⟨s, c₂, hs, hlist⟩ := bind_eq_ok.mp h
      obtain ⟨ss, c₃, hss, hpure⟩ := bind_eq_ok.mp hlist
      cases hpure
      have hblock := fun {terminator : Terminator} (hterm : terminator ≠ .endOfText)
        {c c' : Cursor} (hc : w.Facing c c') =>
          follow_readList helse (show n ≤ k by omega) hterm hc
      obtain ⟨s', c₂', hs', hsame, hc₂, -⟩ :=
        follow_readOne hblock helse (hc.skipWhile hline hne) hne t t' s c₂ hs
      obtain ⟨ss', c₄, hss', hsames⟩ := ih (show n + m ≤ k + 1 by omega) hc₂ hss
      refine ⟨s' :: ss', c₄, ?_, SameTrees.cons hsame hsames⟩
      rw [readList_succ, ht']
      dsimp only
      rw [if_neg (by simp [Terminator.stopsAt]), if_neg (by rwa [Token.isPunct_alike hl])]
      exact bind_eq_ok.mpr ⟨s', c₂', hs', bind_eq_ok.mpr ⟨ss' ++ us, c₄, hss', rfl⟩⟩

/-! ## Whole texts -/

theorem ofSource_eq_ok_iff {source : String} {nodes : List Statement} :
    ofSource source = .ok nodes ↔ ∃ tokens c, Balance.check source.toList = .ok () ∧
      Token.scan 1 0 source.toList = .ok tokens ∧
      readList ((Token.uncommented tokens).length + 1) .endOfText
        (.ofTokens source.toList (Token.uncommented tokens)) = .ok (nodes, c) := by
  unfold ofSource
  cases htokens : Token.ofSource source with
  | error d =>
    constructor
    · intro h; cases h
    · rintro ⟨tokens, c, hcheck, hscan, -⟩
      rw [Token.ofSource_eq_ok.mpr ⟨hcheck, hscan⟩] at htokens
      cases htokens
  | ok tokens =>
    obtain ⟨hcheck, hscan⟩ := Token.ofSource_eq_ok.mp htokens
    show (·.1) <$> readList ((Token.uncommented tokens).length + 1) .endOfText
      (.ofTokens source.toList (Token.uncommented tokens)) = .ok nodes ↔ _
    constructor
    · intro h
      generalize hr : readList _ .endOfText (.ofTokens source.toList _) = r at h
      cases r with
      | error d => cases h
      | ok result => cases h; exact ⟨tokens, result.2, hcheck, hscan, hr⟩
    · rintro ⟨tokens', c, -, hscan', hread⟩
      cases hscan.symm.trans hscan'
      rw [hread]
      rfl

/-- Before the code of a text and before the same code inside another text, two cursors face each
other. -/
theorem facing_of_scan {before after : List Char} {ts : List Token} {lines : Nat}
    (hcheck : Balance.check w.text = .ok ()) (hscan : Token.scan 1 0 w.text = .ok ts)
    (htext : w.text' = before ++ w.text ++ after) (hview : w.view'.expr = w.view.expr)
    (hline : ∀ n, w.view'.line (n + lines) = w.view.line n) (hsource : c'.source = w.text')
    (hahead : c'.ahead =
      (Token.uncommented ts).map (Token.shift lines (utf8Length before)) ++ w.tail) :
    w.Facing (.ofTokens w.text (Token.uncommented ts)) c' := by
  let pairs := (Token.uncommented ts).map fun t => (t, t.shift lines (utf8Length before))
  have hpair : ∀ p ∈ pairs, Moved (utf8Length before) p ∧
      w.view'.line p.2.line = w.view.line p.1.line := by
    intro p hp
    obtain ⟨t, -, rfl⟩ := List.mem_map.mp hp
    exact ⟨⟨rfl, rfl, rfl⟩, hline _⟩
  have hfst : pairs.map Prod.fst = Token.uncommented ts := by
    simp [pairs, Function.comp_def]
  have hsnd : pairs.map Prod.snd =
      (Token.uncommented ts).map (Token.shift lines (utf8Length before)) := by
    simp [pairs, Function.comp_def]
  refine ⟨rfl, hsource, ⟨pairs, hfst.symm, hsnd ▸ hahead, ?_⟩, [], ?_⟩
  · exact mirror_of_moved hscan htext hfst (fun p hp => (hpair p hp).1)
      (fun p hp => (hpair p hp).2) hview
  · exact Token.balanced_of_check hcheck hscan

/-- A script at the end of a text is read as it is on its own, further down. -/
theorem readList_moved {source : String} {nodes : List Statement} {ts : List Token} {d : Cursor}
    (hcheck : Balance.check source.toList = .ok ())
    (hscan : Token.scan 1 0 source.toList = .ok ts)
    (hread : readList ((Token.uncommented ts).length + 1) .endOfText
      (.ofTokens source.toList (Token.uncommented ts)) = .ok (nodes, d))
    {before : List Char} {lines k : Nat} {x : Cursor} (hx : x.source = before ++ source.toList)
    (hahead : x.ahead = (Token.uncommented ts).map (Token.shift lines (utf8Length before)))
    (hk : (Token.uncommented ts).length < k) :
    ∃ c₂, readList k .endOfText x = .ok ((View.moved lines).statements nodes, c₂) := by
  let w : Twin := ⟨.moved lines, .plain, source.toList, before ++ source.toList, [], by simp⟩
  have hempty : ∀ k ≥ 1, ∀ x : Cursor, x.source = w.text' → x.ahead = w.tail →
      ∃ c₂, readList k .endOfText x = .ok ([], c₂) := fun k hk x _ hx => exists_readList_nil hk hx
  have hface : w.Facing (.ofTokens source.toList (Token.uncommented ts)) x :=
    facing_of_scan (w := w) hcheck hscan (List.append_nil _).symm rfl (fun _ => rfl) hx
      (hahead.trans (List.append_nil _).symm)
  obtain ⟨ss', c₂, hread₂, hsame⟩ :=
    readList_mirror (fun t ht => by cases ht) hempty Nat.zero_lt_one
      (show (Token.uncommented ts).length + 1 + 1 ≤ k + 1 by omega) hface hread
  rw [SameTrees, View.statements_plain] at hsame
  rw [List.append_nil, hsame] at hread₂
  exact ⟨c₂, hread₂⟩

/-- The tokens of two texts with a line feed between them. -/
theorem scan_joined {a b : List Char} {ts us : List Token} (ha : Token.scan 1 0 a = .ok ts)
    (hb : Token.scan 1 0 b = .ok us) :
    Token.scan 1 0 (a ++ ['\n'] ++ b) = .ok (ts ++
      ⟨.lineEnd false, 1 + newlines a, utf8Length a, utf8Length (a ++ ['\n'])⟩ ::
        us.map (Token.shift (1 + newlines a) (utf8Length (a ++ ['\n'])))) := by
  have hmoved := Token.scan_shift hb (1 + newlines a) (utf8Length (a ++ ['\n']))
  have hline : 1 + (1 + newlines a) = 1 + newlines a + newlines ['\n'] := by
    rw [show newlines ['\n'] = 1 from rfl]; omega
  have hbyte : 0 + utf8Length (a ++ ['\n']) = 0 + utf8Length a + utf8Length ['\n'] := by
    rw [utf8Length_append]; omega
  rw [hline, hbyte] at hmoved
  have hfeed : Lexeme.read '\n' ([] ++ b) = .ok ⟨.lineEnd false, 0⟩ := rfl
  have hall := Token.scan_cons (show isSpace '\n' = false by decide) hfeed hmoved
  rw [← hbyte, Nat.zero_add, Nat.zero_add] at hall
  rw [List.append_assoc]
  refine Token.scan_append (by decide) ha (.inl rfl) ?_
  rw [Nat.zero_add]
  exact hall

theorem check_joined {a b : List Char} {ts us : List Token} (ha : Token.scan 1 0 a = .ok ts)
    (hb : Token.scan 1 0 b = .ok us) (hcheck : Balance.check a = .ok ())
    (hcheck' : Balance.check b = .ok ()) : Balance.check (a ++ ['\n'] ++ b) = .ok () := by
  rw [Balance.check_eq_ok_iff (Token.scans_of_scan (scan_joined ha hb))]
  rw [Balance.check_eq_ok_iff (Token.scans_of_scan ha)] at hcheck
  rw [Balance.check_eq_ok_iff (Token.scans_of_scan hb)] at hcheck'
  have hmoved : (us.map (Token.shift (1 + newlines a) (utf8Length (a ++ ['\n'])))).map
      Token.lexeme = us.map Token.lexeme := by
    rw [List.map_map]; rfl
  rw [List.map_append, Lexeme.nest_append, hcheck, Option.bind_some, List.map_cons,
    Lexeme.nest_cons, Lexeme.nestOne_of_none rfl rfl, Option.bind_some, hmoved, hcheck']

/-- Two texts that are scripts, with a line feed between them, are a script: its statements are
those of the first text, and behind them those of the second one, further down. -/
theorem ofSource_append {a b : String} {as bs : List Statement} (ha : ofSource a = .ok as)
    (hb : ofSource b = .ok bs) :
    ofSource (a ++ "\n" ++ b) =
      .ok (as ++ (View.moved (1 + newlines a.toList)).statements bs) := by
  obtain ⟨ts, c, hcheck, hscan, hread⟩ := ofSource_eq_ok_iff.mp ha
  obtain ⟨us, d, hcheck', hscan', hread'⟩ := ofSource_eq_ok_iff.mp hb
  have hchars : (a ++ "\n" ++ b).toList = a.toList ++ ['\n'] ++ b.toList := by simp
  have hjoined := scan_joined hscan hscan'
  generalize hlines : 1 + newlines a.toList = lines at hjoined ⊢
  generalize hbytes : utf8Length (a.toList ++ ['\n']) = bytes at hjoined
  generalize hfeed : (⟨.lineEnd false, lines, utf8Length a.toList, bytes⟩ : Token) = feed at hjoined
  have hend : feed.isLineEnd = true := by rw [← hfeed]; rfl
  let second := (Token.uncommented us).map (Token.shift lines bytes)
  have hcode : Token.uncommented (ts ++ feed :: us.map (Token.shift lines bytes)) =
      Token.uncommented ts ++ feed :: second := by
    rw [Token.uncommented_append, Token.uncommented_cons (by rw [← hfeed]; rfl),
      Token.uncommented_map_shift]
  let w : Twin := ⟨.plain, .plain, a.toList, a.toList ++ ['\n'] ++ b.toList, feed :: second, by
    rintro t ⟨⟩
    exact .inl hend⟩
  have hface : w.Facing (.ofTokens w.text (Token.uncommented ts))
      (.ofTokens w.text' (Token.uncommented ts ++ feed :: second)) :=
    facing_of_scan hcheck hscan (show w.text' = [] ++ w.text ++ (['\n'] ++ b.toList) by simp [w])
      rfl (fun n => (rfl : _ = w.view.line (n + 0))) rfl (by
        show Token.uncommented ts ++ feed :: second =
          (Token.uncommented ts).map (Token.shift 0 0) ++ feed :: second
        rw [Token.map_shift_zero])
  -- what stands behind the line feed does not carry on a conditional of the first text
  have helse : NoElse w.tail := by
    intro t ht
    have hsecond := noElse_of_readList hread'
    have hdrop : w.tail.dropWhile Token.isLineEnd =
        ((Token.uncommented us).dropWhile Token.isLineEnd).map (Token.shift lines bytes) := by
      show (feed :: second).dropWhile Token.isLineEnd = _
      rw [List.dropWhile_cons_of_pos hend, List.dropWhile_map]
      rfl
    rw [hdrop, List.head?_map] at ht
    obtain ⟨u, hu, rfl⟩ := Option.map_eq_some_iff.mp ht
    exact hsecond u hu
  have hrest : ∀ k ≥ (Token.uncommented us).length + 1, ∀ x : Cursor, x.source = w.text' →
      x.ahead = w.tail →
      ∃ c₂, readList k .endOfText x = .ok ((View.moved lines).statements bs, c₂) := by
    intro k hk x hx hahead
    obtain ⟨k, rfl⟩ : ∃ m, k = m + 1 := ⟨k - 1, by omega⟩
    have hgap : ∀ t ∈ x.ahead.take 1, t.isLineEnd = true := by
      rw [hahead]
      rintro t (_ | ⟨_, ⟨⟩⟩)
      exact hend
    rw [← readList_advance hgap]
    refine readList_moved hcheck' hscan' hread' hx ?_ hk
    rw [hbytes]
    show x.ahead.drop 1 = second
    rw [hahead]
    rfl
  obtain ⟨ss', c₂, hall, hsame⟩ := readList_mirror helse hrest (Nat.succ_pos _)
    (show (Token.uncommented ts).length + 1 + ((Token.uncommented us).length + 1) ≤
      (Token.uncommented ts ++ feed :: second).length + 1 + 1 by simp [second]; omega) hface hread
  rw [SameTrees, View.statements_plain, View.statements_plain] at hsame
  rw [hsame] at hall
  refine ofSource_eq_ok_iff.mpr ⟨_, c₂, ?_, hchars ▸ hjoined, ?_⟩
  · rw [hchars]
    exact check_joined hscan hscan' hcheck hcheck'
  · rw [hcode, hchars]
    exact hall

theorem ofSource_append_comment :
    ofSource "if (x) \x7b\n  echo x\n\x7d // done" = .ok [ofBlock .conditional 1
      [ofBlock (.branch ⟨"x"⟩) 1 [ofLine (.echo ⟨"x"⟩) 2]]] ∧
    ofSource "\ntask r \x7b\n  k: f(1)\n\x7d" =
      .ok [ofLine (.taskBlock "r" [⟨"k", ⟨"f", [⟨"1"⟩]⟩, 3⟩]) 2] ∧
    ofSource ("if (x) \x7b\n  echo x\n\x7d // done" ++ "\n" ++ "\ntask r \x7b\n  k: f(1)\n\x7d") =
      .ok ([ofBlock .conditional 1 [ofBlock (.branch ⟨"x"⟩) 1 [ofLine (.echo ⟨"x"⟩) 2]]] ++
        (View.moved (1 + newlines "if (x) \x7b\n  echo x\n\x7d // done".toList)).statements
          [ofLine (.taskBlock "r" [⟨"k", ⟨"f", [⟨"1"⟩]⟩, 3⟩]) 2]) := by
  refine ⟨?first, ?second, ofSource_append ?first ?second⟩
  case first => cbv
  case second => cbv

end Statement

end PipelineScript
