import Think.Proofs.Parse.Grammar
import Think.Proofs.Parse.Yield

/-! # Nothing is read that is not there

Each production yields a tree that the grammar derives from exactly the lexemes the production has
passed. Parts that are given up pass nothing, so the trees account for every token once and in
order.
-/

namespace Think

namespace Parse

variable {n : Nat} {f : Feed}

theorem Accounts.optionalVar : Accounts f optionalVar fun _ ls => OptionalVar ls := by
  apply Accounts.lexeme
  split
  · next h =>
    have hne : f.current.lexeme ≠ .endOfText := fun he => by simp [he, Lexeme.isVarText] at h
    exact (advance rfl hne).mono fun _ ls hls => hls ▸ .present h
  · exact .ret .absent

structure Sound (n : Nat) : Prop where
  statements : ∀ f, Accounts f (statements n) fun a ls =>
    ∃ s ns, a = .list s ns ∧ Derives (.statements ns) ls
  moreStatements : ∀ f, Accounts f (moreStatements n) fun ns ls => Derives (.moreStatements ns) ls
  statement : ∀ f, Accounts f (statement n) fun a ls => Derives (.statement a) ls
  expression : ∀ f, Accounts f (expression n) fun a ls => Derives (.expression a) ls
  negation : ∀ f, Accounts f (negation n) fun a ls => Derives (.negation a) ls
  chain : ∀ f l, Accounts f (chain n l) fun a ls => Derives (.chain l a) ls
  moreOperands : ∀ f l {left pre}, Derives (.chain l left) pre →
    Accounts f (moreOperands n l left) fun a ls => Derives (.chain l a) (pre ++ ls)
  operand : ∀ f l, Accounts f (operand n l) fun a ls => Derives (.operand l a) ls
  factor : ∀ f, Accounts f (factor n) fun a ls => Derives (.factor a) ls
  call : ∀ f, Accounts f (call n) fun a ls => Derives (.call a) ls
  moreItems : ∀ f, Accounts f (moreItems n) fun ns ls => Derives (.moreItems ns) ls
  atom : ∀ f, Accounts f (atom n) fun a ls => Derives (.atom a) ls
  listLiteral : ∀ f, Accounts f (listLiteral n) fun a ls => Derives (.atom a) ls
  branch : ∀ f, f.current.lexeme = .keyword .ifKw →
    Accounts f (branch n) fun a ls => Derives (.atom a) ls
  cases : ∀ f lead, lead ≠ .varKw → f.current.lexeme = .keyword lead →
    Accounts f (cases n lead) fun cs ls => Derives (.cases lead cs) ls
  moreCases : ∀ f, Accounts f (moreCases n) fun cs ls => Derives (.moreCases cs) ls
  fallback : ∀ f, Accounts f (fallback n) fun b ls => Derives (.fallback b) ls
  loopBody : ∀ f, Accounts f (loopBody n) fun b ls => Derives (.loopBody b) ls
  forLoop : ∀ f, Accounts f (forLoop n) fun a ls => Derives (.atom a) ls
  whileLoop : ∀ f, Accounts f (whileLoop n) fun a ls => Derives (.atom a) ls
  function : ∀ f, Accounts f (function n) fun a ls => Derives (.atom a) ls

namespace Sound

theorem zero : Sound 0 := by
  constructor <;> intros <;> exact .exhausted

variable (ih : Sound n)

include ih

theorem statements_succ : Accounts f (Parse.statements (n + 1)) fun a ls =>
    ∃ s ns, a = .list s ns ∧ Derives (.statements ns) ls := by
  rw [Parse.statements]
  refine .current <| .bind .newlines fun k u _ hu => ?_
  apply (ih.statement _).part.bind
  intro first a _ ha
  refine (ih.moreStatements _).bind fun others b _ hb => .current <| .ret ?_
  subst hu
  exact ⟨_, _, rfl, by simpa using Derives.statements k ha hb⟩

theorem moreStatements_succ : Accounts f (Parse.moreStatements (n + 1)) fun ns ls =>
    Derives (.moreStatements ns) ls := by
  rw [Parse.moreStatements]
  apply Accounts.bind .newlines
  intro k u _ hu
  subst hu
  split
  · next hk => exact .ret (by simpa using Derives.noMoreStatements k)
  · next hk =>
    obtain ⟨k, rfl⟩ := Nat.exists_eq_succ_of_ne_zero hk
    apply (ih.statement _).attempt.bind
    intro o a _ ha
    obtain ⟨s, rfl, ha⟩ | ⟨rfl, rfl⟩ := ha
    · refine (ih.moreStatements _).bind fun others b _ hb => .ret ?_
      simpa using Derives.moreStatements k ha hb
    · exact .ret (by simpa using Derives.noMoreStatements (k + 1))

theorem statement_succ : Accounts f (Parse.statement (n + 1)) fun a ls =>
    Derives (.statement a) ls := by
  rw [Parse.statement]
  refine .current <| .lexeme ?_
  split
  · next hl =>
    refine .pass hl (by simp) fun _ => (ih.expression _).attempt.bind fun o a _ ha => ?_
    refine .current <| .ret ?_
    obtain ⟨e, rfl, ha⟩ | ⟨rfl, rfl⟩ := ha
    · simpa using Derives.valueReturn ha
    · exact .bareReturn
  · next hl =>
    refine .pass hl (by simp) fun _ => (ih.expression _).attempt.bind fun o a _ ha => ?_
    refine .current <| .ret ?_
    obtain ⟨e, rfl, ha⟩ | ⟨rfl, rfl⟩ := ha
    · simpa using Derives.valueThink ha
    · exact .bareThink
  · next hl => exact .pass hl (by simp) fun _ => .current <| .ret .continueLoop
  · next hl => exact .pass hl (by simp) fun _ => .current <| .ret .breakLoop
  · exact (ih.expression f).partOr.mono fun _ _ => .statement

theorem expression_succ : Accounts f (Parse.expression (n + 1)) fun a ls =>
    Derives (.expression a) ls := by
  rw [Parse.expression]
  apply Accounts.lexeme
  dsimp only
  split
  · next hl =>
    refine .pass hl (by simp) fun _ => .bind .identifier fun i u _ hu => ?_
    refine .bind .assignSign fun _ v _ hv => (ih.expression _).part.bind fun e a _ he => .ret ?_
    subst hu hv
    simpa using Derives.assign he
  · next hl =>
    refine .pass hl (by simp) fun _ => .current ?_
    split
    · next ht => exact .pass ht (by simp) fun _ => .ret (.importFile _)
    · exact .reject
  · exact (ih.chain f _).partOr.mono fun _ _ => .expression

theorem negation_succ : Accounts f (Parse.negation (n + 1)) fun a ls =>
    Derives (.negation a) ls := by
  rw [Parse.negation]
  apply Accounts.current
  split
  · next hl =>
    refine .pass hl (by simp) fun _ => (ih.negation _).part.bind fun e a _ he => .ret ?_
    simpa using Derives.not he
  · exact (ih.chain f _).partOr.mono fun _ _ => .negation

theorem chain_succ (l : Level) : Accounts f (Parse.chain (n + 1) l) fun a ls =>
    Derives (.chain l a) ls := by
  rw [Parse.chain]
  exact (ih.operand f l).part.bind fun e a _ he => ih.moreOperands _ l (.operand he)

theorem rightOperand (l : Level) :
    Accounts f (Parse.rightOperand n l) fun a ls => Derives (.rightOperand l a) ls := by
  cases l
  case power => exact ih.factor f
  all_goals exact ih.operand f _

theorem moreOperands_succ (l : Level) {left : Node} {pre : List Lexeme}
    (hleft : Derives (.chain l left) pre) :
    Accounts f (Parse.moreOperands (n + 1) l left) fun a ls =>
      Derives (.chain l a) (pre ++ ls) := by
  rw [Parse.moreOperands_succ]
  apply Accounts.lexeme
  split
  · exact .ret (by simpa using hleft)
  · next op ho =>
    have hne : f.current.lexeme ≠ .endOfText := fun he => by cases l <;> simp [he, Level.op?] at ho
    refine .pass rfl hne fun _ => (ih.rightOperand l).part.bind fun right a _ hr => ?_
    simpa [joined] using ih.moreOperands _ l (.join hleft ho hr)

theorem operand_succ (l : Level) : Accounts f (Parse.operand (n + 1) l) fun a ls =>
    Derives (.operand l a) ls := by
  cases l <;> rw [Parse.operand]
  case logic => exact ih.negation f
  case product => exact ih.factor f
  case power => exact ih.call f
  all_goals exact ih.chain f _

theorem factor_succ : Accounts f (Parse.factor (n + 1)) fun a ls => Derives (.factor a) ls := by
  rw [Parse.factor]
  apply Accounts.current
  split
  · next hl =>
    refine .pass hl (by simp) fun _ => (ih.factor _).part.bind fun e a _ he => .ret ?_
    simpa using Derives.plus he
  · next hl =>
    refine .pass hl (by simp) fun _ => (ih.factor _).part.bind fun e a _ he => .ret ?_
    simpa using Derives.minus he
  · exact (ih.chain f _).mono fun _ _ => .factor

theorem call_succ : Accounts f (Parse.call (n + 1)) fun a ls => Derives (.call a) ls := by
  rw [Parse.call]
  refine (ih.atom f).part.bind fun callee a f₁ ha => .lexeme ?_
  split
  · next ho =>
    refine .pass ho (by simp) fun f₂ => .lexeme ?_
    split
    · next hc =>
      refine .pass hc (by simp) fun _ => .ret ?_
      simpa [callNode] using Derives.call ha .noItems
    · apply (ih.expression f₂).partOr.bind
      intro first b _ hb
      refine (ih.moreItems _).bind fun others c f₃ hc => .lexeme ?_
      split
      · next hp =>
        refine .pass hp (by simp) fun _ => .ret ?_
        simpa [callNode] using Derives.call ha (.items hb hc)
      · exact .reject
  · exact .ret (by simpa using Derives.noCall ha)

theorem moreItems_succ : Accounts f (Parse.moreItems (n + 1)) fun ns ls =>
    Derives (.moreItems ns) ls := by
  rw [Parse.moreItems]
  apply Accounts.lexeme
  split
  · next hc =>
    refine .pass hc (by simp) fun _ => (ih.expression _).part.bind fun e a _ ha => ?_
    exact (ih.moreItems _).bind fun es b _ hb => .ret (by simpa using Derives.moreItems ha hb)
  · exact .ret .noMoreItems

theorem atom_succ : Accounts f (Parse.atom (n + 1)) fun a ls => Derives (.atom a) ls := by
  rw [Parse.atom]
  apply Accounts.current
  split
  · next hl => exact .pass hl (by simp) fun _ => .ret (.number (.int _))
  · next hl => exact .pass hl (by simp) fun _ => .ret (.number (.float _))
  · next hl => exact .pass hl (by simp) fun _ => .ret (.text _)
  · next hl => exact .pass hl (by simp) fun _ => .ret (.access _)
  · next hl =>
    refine .pass hl (by simp) fun _ => (ih.expression _).part.bind fun e a f₁ ha => .lexeme ?_
    split
    · next hc => exact .pass hc (by simp) fun _ => .ret (by simpa using Derives.paren ha)
    · exact .reject
  · exact (ih.listLiteral f).part
  · next hl => exact (ih.branch f hl).part
  · exact (ih.forLoop f).part
  · exact (ih.whileLoop f).part
  · exact (ih.function f).part
  · exact .reject

theorem listLiteral_succ : Accounts f (Parse.listLiteral (n + 1)) fun a ls =>
    Derives (.atom a) ls := by
  rw [Parse.listLiteral]
  refine .current <| .lexeme ?_
  dsimp only
  split
  · next ho =>
    refine .pass ho (by simp) fun f₁ => .lexeme ?_
    split
    · next hc => exact .pass hc (by simp) fun _ => .current <| .ret (.list .noItems)
    · apply (ih.expression f₁).partOr.bind
      intro first a _ ha
      refine (ih.moreItems _).bind fun others b f₂ hb => .lexeme ?_
      split
      · next hc =>
        refine .pass hc (by simp) fun _ => .current <| .ret ?_
        simpa using Derives.list (.items ha hb)
      · exact .reject
  · exact .reject_bind

theorem branch_succ (hf : f.current.lexeme = .keyword .ifKw) :
    Accounts f (Parse.branch (n + 1)) fun a ls => Derives (.atom a) ls := by
  rw [Parse.branch]
  refine (ih.cases f .ifKw (by simp) hf).part.bind fun cs a _ ha => .ret ?_
  simpa [branchNode] using Derives.branch ha

theorem cases_succ {lead : Keyword} (hne : lead ≠ .varKw) (hl : f.current.lexeme = .keyword lead) :
    Accounts f (Parse.cases (n + 1) lead) fun cs ls => Derives (.cases lead cs) ls := by
  rw [Parse.cases]
  have hv : Accounts f Parse.optionalVar fun _ ls => ls = [] := by
    apply Accounts.lexeme
    rw [if_neg (by cases lead <;> simp_all [Lexeme.isVarText])]
    exact .ret rfl
  refine hv.bind fun _ u _ hu => .bind .keyword fun _ v _ hv => ?_
  subst hu hv
  refine (ih.expression _).part.bind fun c a _ ha => .bind .keyword fun _ w f₁ hw => .lexeme ?_
  subst hw
  split
  · next hb =>
    refine .pass hb (by simp) fun f₂ => (ih.statements f₂).part.bind fun body b f₃ hb => ?_
    obtain ⟨s, ns, rfl, hb⟩ := hb
    refine .ifKeyword (fun he => ?_) ?_
    · exact .pass he (by simp) fun _ => .ret (by simpa using Derives.blockCase ha hb)
    · refine (ih.moreCases f₃).part.bind fun cs d _ hd => .ret ?_
      simpa using Derives.blockCases ha hb hd
  · apply (ih.statement f₁).part.bind
    intro body b f₃ hb
    refine (ih.moreCases f₃).part.bind fun cs d _ hd => .ret ?_
    simpa using Derives.inlineCases ha hb hd

theorem moreCases_succ : Accounts f (Parse.moreCases (n + 1)) fun cs ls =>
    Derives (.moreCases cs) ls := by
  rw [Parse.moreCases]
  refine .ifKeyword (fun he => ?_) ?_
  · exact (ih.cases f .elifKw (by simp) he).part.mono fun _ _ => .elifCases
  · exact (ih.fallback f).part.bind fun b a _ ha => .ret (by simpa using Derives.lastCase ha)

theorem fallback_succ : Accounts f (Parse.fallback (n + 1)) fun b ls =>
    Derives (.fallback b) ls := by
  rw [Parse.fallback]
  refine .ifKeyword (fun he => .pass he (by simp) fun f₁ => .lexeme ?_) (.ret .noFallback)
  split
  · next hb =>
    refine .pass hb (by simp) fun f₂ => (ih.statements f₂).part.bind fun body a _ ha => ?_
    obtain ⟨s, ns, rfl, ha⟩ := ha
    refine .bind .keyword fun _ u _ hu => .ret ?_
    subst hu
    simpa using Derives.blockFallback ha
  · refine (ih.statement f₁).part.bind fun body a _ ha => .ret ?_
    simpa using Derives.inlineFallback ha

theorem loopBody_succ : Accounts f (Parse.loopBody (n + 1)) fun b ls =>
    Derives (.loopBody b) ls := by
  rw [Parse.loopBody]
  refine .bind .keyword fun _ u f₁ hu => .lexeme ?_
  subst hu
  split
  · next hb =>
    refine .pass hb (by simp) fun f₂ => (ih.statements f₂).part.bind fun body a _ ha => ?_
    obtain ⟨s, ns, rfl, ha⟩ := ha
    refine .bind .keyword fun _ u _ hu => .ret ?_
    subst hu
    simpa using Derives.blockBody ha
  · refine (ih.statement f₁).part.bind fun body a _ ha => .ret ?_
    simpa using Derives.inlineBody ha

theorem whileLoop_succ : Accounts f (Parse.whileLoop (n + 1)) fun a ls =>
    Derives (.atom a) ls := by
  rw [Parse.whileLoop]
  refine .bind .keyword fun _ u f₁ hu => (ih.expression f₁).part.bind fun c a f₂ ha => ?_
  subst hu
  refine (ih.loopBody f₂).bind fun body b _ hb => .ret ?_
  simpa using Derives.whileLoop ha hb

omit ih in
theorem moreParams (n : Nat) (f : Feed) : Accounts f (Parse.moreParams n) fun ps ls =>
    ∀ p, paramLexemes (p :: ps.map (·.1)) = .name p :: ls := by
  induction n generalizing f with
  | zero => exact .exhausted
  | succ n ih =>
    apply Accounts.lexeme
    split
    · next hc =>
      refine .pass hc (by simp) fun f₁ => .bind .identifier fun p u f₂ hu => ?_
      subst hu
      refine (ih f₂).bind fun ps a _ ha => .ret fun q => ?_
      have hp := ha p.1
      simp_all [paramLexemes]
    · exact .ret fun p => rfl

omit ih in
theorem params : Accounts f (Parse.params n) fun ps ls =>
    ls = paramLexemes (ps.map (·.1)) ++ [.closeParen] := by
  apply Accounts.lexeme
  split
  · refine .bind .identifier fun p u f₁ hu => (moreParams n f₁).bind fun ps a f₂ ha => .lexeme ?_
    subst hu
    split
    · next hc => exact .pass hc (by simp) fun _ => .ret (by simp [ha p.1])
    · exact .reject
  · next hc => exact .pass hc (by simp) fun _ => .ret rfl
  · exact .reject

omit ih in
theorem functionName : Accounts f functionName fun name? ls =>
    ls = nameLexemes (name?.map (·.1)) := by
  apply Accounts.lexeme
  split
  · rw [map_eq_pure_bind]
    exact .bind .identifier fun i u _ hu => .ret (by simp [hu, nameLexemes])
  · exact .ret rfl

theorem loopStep : Accounts f (Parse.loopStep (Parse.expression n)) fun e ls =>
    Derives (.step e) ls := by
  refine .ifKeyword (fun hl => ?_) (.ret .noStep)
  refine .pass hl (by simp) fun _ => (ih.expression _).part.bind fun e a _ he => .ret ?_
  simpa using Derives.step he

theorem forLoop_succ : Accounts f (Parse.forLoop (n + 1)) fun a ls => Derives (.atom a) ls := by
  rw [Parse.forLoop]
  refine .bind .keyword fun _ u f₁ hu => .bind .optionalVar fun _ v f₂ hv => ?_
  refine .bind .identifier fun name w f₃ hw => .bind .assignSign fun _ t f₄ ht => ?_
  subst hu hw ht
  refine (ih.expression f₄).part.bind fun first a f₅ ha => .bind .keyword fun _ u f₆ hu => ?_
  refine (ih.expression f₆).part.bind fun last b f₇ hb => ih.loopStep.bind fun step c f₈ hc => ?_
  refine (ih.loopBody f₈).bind fun body d _ hd => .ret ?_
  subst hu
  simpa using Derives.forLoop hv ha hb hc hd

theorem function_succ : Accounts f (Parse.function (n + 1)) fun a ls => Derives (.atom a) ls := by
  rw [Parse.function]
  refine .bind .keyword fun _ u f₁ hu => functionName.bind fun name? v f₂ hv => ?_
  refine .bind .openParams fun _ w f₃ hw => params.bind fun ps t f₄ ht => .lexeme ?_
  subst hu hv hw ht
  split
  · next hl =>
    refine .pass hl (by simp) fun f₅ => (ih.expression f₅).part.bind fun e a _ ha => .ret ?_
    simpa [functionNode] using Derives.arrow ha
  · next hl =>
    refine .pass hl (by simp) fun f₅ => (ih.statements f₅).part.bind fun body a f₆ ha => ?_
    obtain ⟨s, ns, rfl, ha⟩ := ha
    refine .bind .keyword fun _ u _ hu => .ret ?_
    subst hu
    simpa [functionNode] using Derives.function ha
  · exact .reject

/-- Productions that nest one level deeper account for what they pass, if those below do. -/
theorem succ : Sound (n + 1) where
  statements _ := ih.statements_succ
  moreStatements _ := ih.moreStatements_succ
  statement _ := ih.statement_succ
  expression _ := ih.expression_succ
  negation _ := ih.negation_succ
  chain _ := ih.chain_succ
  moreOperands _ l _ _ := ih.moreOperands_succ l
  operand _ := ih.operand_succ
  factor _ := ih.factor_succ
  call _ := ih.call_succ
  moreItems _ := ih.moreItems_succ
  atom _ := ih.atom_succ
  listLiteral _ := ih.listLiteral_succ
  branch _ := ih.branch_succ
  cases _ _ := ih.cases_succ
  moreCases _ := ih.moreCases_succ
  fallback _ := ih.fallback_succ
  loopBody _ := ih.loopBody_succ
  forLoop _ := ih.forLoop_succ
  whileLoop _ := ih.whileLoop_succ
  function _ := ih.function_succ

end Sound

theorem sound : ∀ n, Sound n
  | 0 => .zero
  | n + 1 => (sound n).succ

/-- A whole program is derived from the lexemes in front of an end of the text. -/
theorem program_accounts : Accounts f (program n) fun a ls =>
    ∃ s ns, a = .list s ns ∧ Derives (.statements ns) ls := by
  refine ((sound n).statements f).bind fun body a f₁ ha => .lexeme ?_
  split
  · exact .ret (by simpa using ha)
  · exact .reject

theorem program_stops {a : Node} {g : Feed} (h : Yields (program n) f a g) :
    g.current.lexeme = .endOfText := by
  obtain ⟨body, f₁, _, h⟩ := h.bind
  have h := h.lexeme
  split at h
  · next hl =>
    obtain ⟨-, rfl⟩ := yields_pure.mp h
    exact hl
  · exact (not_yields_reject h).elim

end Parse

variable {body : List Token} {last : Token}

/-- The first end of a text is its last token when there is only one. -/
theorem Feed.Passes.eq_body {f g : Feed} {ls : List Lexeme} (h : f.Passes ls g)
    (hf : f.tokens = body ++ [last]) (hbody : ∀ t ∈ body, t.lexeme ≠ .endOfText)
    (hg : g.current.lexeme = .endOfText) : ls = body.map (·.lexeme) := by
  obtain ⟨u, hu, rfl⟩ := h
  rw [hf, tokens] at hu
  obtain hr | ⟨r, t, hr⟩ := g.rest.eq_nil_or_concat
  · rw [hr] at hu
    rw [List.append_inj_left' hu rfl]
  · have hu : body ++ [last] = (u ++ g.current :: r) ++ [t] := by simpa [hr] using hu
    have hb : body = u ++ g.current :: r := List.append_inj_left' hu rfl
    exact (hbody g.current (by simp [hb]) hg).elim

/-- Every token in front of the end of the text is used once and in order: the tree that is read
from a list of tokens is derived from the lexemes of exactly these tokens. -/
theorem Node.ofTokens_derives (body : List Token) (last : Token) (node : Node)
    (hlast : last.lexeme = .endOfText) (hbody : ∀ t ∈ body, t.lexeme ≠ .endOfText)
    (h : Node.ofTokens (body ++ [last]) = .ok node) :
    ∃ span nodes, node = .list span nodes ∧
      Derives (.statements nodes) (body.map (·.lexeme)) := by
  obtain ⟨f, hf⟩ : ∃ f : Feed, f.tokens = body ++ [last] := by
    cases body with
    | nil => exact ⟨⟨last, []⟩, rfl⟩
    | cons t rest => exact ⟨⟨t, rest ++ [last]⟩, rfl⟩
  have hsealed : f.Sealed := by simp [Feed.Sealed, hf, hlast]
  have hy : Parse.Yields (Parse.program (Parse.fuelFor f.tokens.length)) f node
      (Parse.runOn Parse.program f).2.feed := by
    rw [← hf] at h
    exact ⟨.start f, _, rfl, rfl, Prod.ext h rfl⟩
  obtain ⟨ls, hp, span, nodes, rfl, hd⟩ := Parse.program_accounts hsealed hy
  obtain rfl := hp.eq_body hf hbody (Parse.program_stops hy)
  exact ⟨span, nodes, rfl, hd⟩

theorem Node.ofTokens_derives_return :
    ∃ span nodes, Node.ofTokens [.single .newline default, .single (.keyword .returnKw) default,
        .single .newline default, .single (.int 1) default, .single .endOfText default] =
          .ok (.list span nodes) ∧
      Derives (.statements nodes) [.newline, .keyword .returnKw, .newline, .int 1] := by
  have hok : (Node.ofTokens [.single .newline default, .single (.keyword .returnKw) default,
      .single .newline default, .single (.int 1) default, .single .endOfText default]).isOk := by
    decide +kernel
  generalize h : Node.ofTokens _ = r at hok
  cases r with
  | error e => cases hok
  | ok node =>
    obtain ⟨span, nodes, rfl, hd⟩ := Node.ofTokens_derives
      [.single .newline default, .single (.keyword .returnKw) default, .single .newline default,
        .single (.int 1) default] (.single .endOfText default) node rfl (by simp [Token.single]) h
    exact ⟨span, nodes, rfl, hd⟩

end Think
