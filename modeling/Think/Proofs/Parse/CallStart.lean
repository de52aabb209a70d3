import Think.Proofs.Parse.Yield

/-! # Where calls start

The parser makes every call start where its callee starts, in the bodies of functions as everywhere
else. A call that is reported at its start is thus reported at the function that is called.
-/

namespace Think

inductive Node.Headed : Node → Prop
  | number (s : Span) (v : Numeral) : Headed (.number s v)
  | text (s : Span) (t : String) : Headed (.text s t)
  | list {s ns} (h : ∀ n ∈ ns, Headed n) : Headed (.list s ns)
  | access (s : Span) (x : String) : Headed (.access s x)
  | assign {s x v} (h : Headed v) : Headed (.assign s x v)
  | binary {s op l r} (hl : Headed l) (hr : Headed r) : Headed (.binary s op l r)
  | unary {s op a} (h : Headed a) : Headed (.unary s op a)
  | branch {s cs f} (hc : ∀ c ∈ cs, Headed c.1) (hb : ∀ c ∈ cs, Headed c.2.1)
    (hf : ∀ b ∈ f, Headed b.1) : Headed (.branch s cs f)
  | forLoop {s x a b z n k} (ha : Headed a) (hb : Headed b) (hz : ∀ e ∈ z, Headed e)
    (hn : Headed n) : Headed (.forLoop s x a b z n k)
  | whileLoop {s c n k} (hc : Headed c) (hn : Headed n) : Headed (.whileLoop s c n k)
  | function {s name params n k} (h : Headed n) : Headed (.function s name params n k)
  | call {s f args} (hs : s.start = f.start) (hf : Headed f) (ha : ∀ n ∈ args, Headed n) :
    Headed (.call s f args)
  | ret {s v} (h : ∀ e ∈ v, Headed e) : Headed (.ret s v)
  | think {s v} (h : ∀ e ∈ v, Headed e) : Headed (.think s v)
  | importFile (s : Span) (path : String) : Headed (.importFile s path)
  | continueLoop (s : Span) : Headed (.continueLoop s)
  | breakLoop (s : Span) : Headed (.breakLoop s)

structure Cases.Headed (cs : Cases) : Prop where
  conditions : ∀ c ∈ cs.1, c.1.Headed
  bodies : ∀ c ∈ cs.1, c.2.1.Headed
  fallback : ∀ b ∈ cs.2, b.1.Headed

theorem Cases.Headed.empty : Headed ([], none) := ⟨by simp, by simp, by simp⟩

theorem Cases.Headed.cons {c b : Node} {k : Bool} {cs : Cases} (hc : c.Headed) (hb : b.Headed)
    (h : Headed cs) : Headed ((c, b, k) :: cs.1, cs.2) where
  conditions := by simpa [hc] using h.conditions
  bodies := by simpa [hb] using h.bodies
  fallback := h.fallback

namespace Parse

variable {α β : Type} {x : Parse α} {k : α → Parse β} {P : α → Prop} {Q : β → Prop}

def Gives (P : α → Prop) (x : Parse α) : Prop := ∀ f a g, Yields x f a g → P a

namespace Gives

theorem bind (hx : Gives P x) (hk : ∀ a, P a → Gives Q (k a)) : Gives Q (x >>= k) := by
  intro f b g hy
  obtain ⟨a, f', ha, hb⟩ := hy.bind
  exact hk a (hx f a f' ha) f' b g hb

theorem after (x : Parse α) (hk : ∀ a, Gives Q (k a)) : Gives Q (x >>= k) := by
  intro f b g hy
  obtain ⟨a, f', -, hb⟩ := hy.bind
  exact hk a f' b g hb

theorem ret {a : α} (h : P a) : Gives P (pure a) := by
  intro f b g hy
  obtain ⟨rfl, -⟩ := yields_pure.mp hy
  exact h

theorem reject (details : String) : Gives P (reject details) :=
  fun _ _ _ hy => (not_yields_reject hy).elim

theorem reject_bind (details : String) (k : α → Parse β) :
    Gives Q (Parse.reject details >>= k) := fun _ _ _ hy => (not_yields_reject_bind hy).elim

theorem exhausted : Gives P exhausted := fun _ _ _ hy => (not_yields_exhausted hy).elim

theorem part (h : Gives P x) : Gives P (part x) := fun f a g hy => h f a g hy.part

theorem partOr (details : String) (h : Gives P x) : Gives P (partOr details x) :=
  fun f a g hy => h f a g hy.partOr

theorem attempt (h : Gives P x) : Gives (fun o => ∀ a ∈ o, P a) (attempt x) := by
  intro f o g hy
  obtain ⟨a, rfl, ha⟩ | ⟨rfl, -⟩ := hy.attempt
  · rintro b ⟨⟩
    exact h f a g ha
  · simp

theorem loopStep {x : Parse Node} {P : Node → Prop} (h : Gives P x) :
    Gives (fun o => ∀ a ∈ o, P a) (loopStep x) := by
  refine after (atKeyword .stepKw) fun present => ?_
  split
  · exact after advance fun _ => h.part.bind fun a ha => ret (by simpa using ha)
  · exact ret (by simp)

end Gives

/-- With the given fuel every production yields trees whose calls start where their callees do. -/
structure Heading (n : Nat) : Prop where
  statements : Gives Node.Headed (statements n)
  moreStatements : Gives (fun ns => ∀ a ∈ ns, a.Headed) (moreStatements n)
  statement : Gives Node.Headed (statement n)
  expression : Gives Node.Headed (expression n)
  negation : Gives Node.Headed (negation n)
  chain : ∀ level, Gives Node.Headed (chain n level)
  moreOperands : ∀ level left, left.Headed → Gives Node.Headed (moreOperands n level left)
  operand : ∀ level, Gives Node.Headed (operand n level)
  factor : Gives Node.Headed (factor n)
  call : Gives Node.Headed (call n)
  moreItems : Gives (fun ns => ∀ a ∈ ns, a.Headed) (moreItems n)
  atom : Gives Node.Headed (atom n)
  listLiteral : Gives Node.Headed (listLiteral n)
  branch : Gives Node.Headed (branch n)
  cases : ∀ lead, Gives Cases.Headed (cases n lead)
  moreCases : Gives Cases.Headed (moreCases n)
  fallback : Gives (fun o => ∀ b ∈ o, b.1.Headed) (fallback n)
  loopBody : Gives (fun b => b.1.Headed) (loopBody n)
  forLoop : Gives Node.Headed (forLoop n)
  whileLoop : Gives Node.Headed (whileLoop n)
  function : Gives Node.Headed (function n)

namespace Heading

theorem zero : Heading 0 := by
  constructor <;> intros <;> exact Gives.exhausted

variable {n : Nat} (ih : Heading n)

include ih

theorem statements_succ : Gives Node.Headed (Parse.statements (n + 1)) := by
  rw [Parse.statements]
  refine .after _ fun _ => .after _ fun _ => ih.statement.part.bind fun first hfirst => ?_
  refine ih.moreStatements.bind fun others hothers => .after _ fun _ => .ret (.list ?_)
  simpa [hfirst] using hothers

theorem moreStatements_succ :
    Gives (fun ns => ∀ a ∈ ns, a.Headed) (Parse.moreStatements (n + 1)) := by
  rw [Parse.moreStatements]
  apply Gives.after
  intro count
  split
  · exact .ret (by simp)
  · refine ih.statement.attempt.bind fun s hs => ?_
    cases s with
    | none => exact .ret (by simp)
    | some s =>
      refine ih.moreStatements.bind fun others hothers => .ret ?_
      simpa [hs s rfl] using hothers

theorem statement_succ : Gives Node.Headed (Parse.statement (n + 1)) := by
  rw [Parse.statement]
  refine .after _ fun _ => .after _ fun l => ?_
  split
  · refine .after _ fun _ => ih.expression.attempt.bind fun v hv => ?_
    exact .after _ fun _ => .ret (.ret hv)
  · refine .after _ fun _ => ih.expression.attempt.bind fun v hv => ?_
    exact .after _ fun _ => .ret (.think hv)
  · exact .after _ fun _ => .after _ fun _ => .ret (.continueLoop _)
  · exact .after _ fun _ => .after _ fun _ => .ret (.breakLoop _)
  · exact ih.expression.partOr _

theorem expression_succ : Gives Node.Headed (Parse.expression (n + 1)) := by
  rw [Parse.expression]
  apply Gives.after
  intro l
  split
  · refine .after _ fun _ => .after _ fun _ => .after _ fun _ => ?_
    exact ih.expression.part.bind fun v hv => .ret (.assign hv)
  · refine .after _ fun _ => .after _ fun t => ?_
    split
    · exact .after _ fun _ => .ret (.importFile _ _)
    · exact .reject _
  · exact (ih.chain _).partOr _

theorem negation_succ : Gives Node.Headed (Parse.negation (n + 1)) := by
  rw [Parse.negation]
  apply Gives.after
  intro t
  split
  · exact .after _ fun _ => ih.negation.part.bind fun a ha => .ret (.unary ha)
  · exact (ih.chain _).partOr _

theorem chain_succ (level : Level) : Gives Node.Headed (Parse.chain (n + 1) level) := by
  rw [Parse.chain]
  exact (ih.operand level).part.bind fun first hfirst => ih.moreOperands level first hfirst

theorem moreOperands_succ (level : Level) (left : Node) (hleft : left.Headed) :
    Gives Node.Headed (Parse.moreOperands (n + 1) level left) := by
  have hright : Gives Node.Headed (rightOperand n level) := by
    cases level
    case power => exact ih.factor
    all_goals exact ih.operand _
  rw [Parse.moreOperands_succ]
  apply Gives.after
  intro l
  split
  · exact .ret hleft
  · refine .after _ fun _ => hright.part.bind fun right hr => ?_
    exact ih.moreOperands level _ (.binary hleft hr)

theorem operand_succ (level : Level) : Gives Node.Headed (Parse.operand (n + 1) level) := by
  cases level <;> rw [Parse.operand]
  · exact ih.negation
  · exact ih.chain _
  · exact ih.chain _
  · exact ih.factor
  · exact ih.call

theorem factor_succ : Gives Node.Headed (Parse.factor (n + 1)) := by
  rw [Parse.factor]
  apply Gives.after
  intro t
  split
  · exact .after _ fun _ => ih.factor.part.bind fun a ha => .ret (.unary ha)
  · exact .after _ fun _ => ih.factor.part.bind fun a ha => .ret (.unary ha)
  · exact ih.chain _

theorem call_succ : Gives Node.Headed (Parse.call (n + 1)) := by
  rw [Parse.call]
  refine ih.atom.part.bind fun callee hcallee => .after _ fun l => ?_
  split
  · refine .after _ fun _ => .after _ fun l => ?_
    split
    · exact .after _ fun _ => .ret (.call rfl hcallee (by simp))
    · refine (ih.expression.partOr _).bind fun first hfirst => ?_
      refine ih.moreItems.bind fun others hothers => .after _ fun l => ?_
      split
      · refine .after _ fun _ => .ret (.call rfl hcallee ?_)
        simpa [hfirst] using hothers
      · exact .reject _
  · exact .ret hcallee

theorem moreItems_succ : Gives (fun ns => ∀ a ∈ ns, a.Headed) (Parse.moreItems (n + 1)) := by
  rw [Parse.moreItems]
  apply Gives.after
  intro l
  split
  · refine .after _ fun _ => ih.expression.part.bind fun item hitem => ?_
    refine ih.moreItems.bind fun others hothers => .ret ?_
    simpa [hitem] using hothers
  · exact .ret (by simp)

theorem atom_succ : Gives Node.Headed (Parse.atom (n + 1)) := by
  rw [Parse.atom]
  apply Gives.after
  intro t
  split
  case h_1 | h_2 => exact .after _ fun _ => .ret (.number _ _)
  case h_3 => exact .after _ fun _ => .ret (.text _ _)
  case h_4 => exact .after _ fun _ => .ret (.access _ _)
  case h_5 =>
    refine .after _ fun _ => ih.expression.part.bind fun inner hinner => .after _ fun l => ?_
    split
    · exact .after _ fun _ => .ret hinner
    · exact .reject _
  case h_6 => exact ih.listLiteral.part
  case h_7 => exact ih.branch.part
  case h_8 => exact ih.forLoop.part
  case h_9 => exact ih.whileLoop.part
  case h_10 => exact ih.function.part
  case h_11 => exact .reject _

theorem listLiteral_succ : Gives Node.Headed (Parse.listLiteral (n + 1)) := by
  rw [Parse.listLiteral]
  refine .after _ fun t => .after _ fun l => ?_
  dsimp only
  split
  · refine .after _ fun _ => .after _ fun l => ?_
    split
    · exact .after _ fun _ => .after _ fun _ => .ret (.list (by simp))
    · refine (ih.expression.partOr _).bind fun first hfirst => ?_
      refine ih.moreItems.bind fun others hothers => .after _ fun l => ?_
      split
      · refine .after _ fun _ => .after _ fun _ => .ret (.list ?_)
        simpa [hfirst] using hothers
      · exact .reject _
  · exact .reject_bind _ _

theorem branch_succ : Gives Node.Headed (Parse.branch (n + 1)) := by
  rw [Parse.branch]
  refine (ih.cases .ifKw).part.bind fun cs hcs => .ret ?_
  exact .branch hcs.conditions hcs.bodies hcs.fallback

theorem cases_succ (lead : Keyword) : Gives Cases.Headed (Parse.cases (n + 1) lead) := by
  rw [Parse.cases]
  refine .after _ fun _ => .after _ fun _ => ih.expression.part.bind fun condition hc => ?_
  refine .after _ fun _ => .after _ fun l => ?_
  split
  · refine .after _ fun _ => ih.statements.part.bind fun body hb => .after _ fun ends => ?_
    split
    · exact .after _ fun _ => .ret (Cases.Headed.empty.cons hc hb)
    · exact ih.moreCases.part.bind fun others hothers => .ret (hothers.cons hc hb)
  · refine ih.statement.part.bind fun body hb => ?_
    exact ih.moreCases.part.bind fun others hothers => .ret (hothers.cons hc hb)

theorem moreCases_succ : Gives Cases.Headed (Parse.moreCases (n + 1)) := by
  rw [Parse.moreCases]
  apply Gives.after
  intro more
  split
  · exact (ih.cases .elifKw).part
  · exact ih.fallback.part.bind fun b hb => .ret ⟨by simp, by simp, hb⟩

theorem fallback_succ : Gives (fun o => ∀ b ∈ o, b.1.Headed) (Parse.fallback (n + 1)) := by
  rw [Parse.fallback]
  apply Gives.after
  intro more
  split
  · refine .after _ fun _ => .after _ fun l => ?_
    split
    · refine .after _ fun _ => ih.statements.part.bind fun body hb => .after _ fun _ => .ret ?_
      simpa using hb
    · exact ih.statement.part.bind fun body hb => .ret (by simpa using hb)
  · exact .ret (by simp)

theorem loopBody_succ : Gives (fun b => b.1.Headed) (Parse.loopBody (n + 1)) := by
  rw [Parse.loopBody]
  refine .after _ fun _ => .after _ fun l => ?_
  split
  · exact .after _ fun _ => ih.statements.part.bind fun body hb => .after _ fun _ => .ret hb
  · exact ih.statement.part.bind fun body hb => .ret hb

theorem forLoop_succ : Gives Node.Headed (Parse.forLoop (n + 1)) := by
  rw [Parse.forLoop]
  refine .after _ fun _ => .after _ fun _ => .after _ fun _ => .after _ fun _ => ?_
  refine ih.expression.part.bind fun first hfirst => .after _ fun _ => ?_
  refine ih.expression.part.bind fun last hlast => ih.expression.loopStep.bind fun step hstep => ?_
  exact ih.loopBody.bind fun body hbody => .ret (.forLoop hfirst hlast hstep hbody)

theorem whileLoop_succ : Gives Node.Headed (Parse.whileLoop (n + 1)) := by
  rw [Parse.whileLoop]
  refine .after _ fun _ => ih.expression.part.bind fun condition hc => ?_
  exact ih.loopBody.bind fun body hbody => .ret (.whileLoop hc hbody)

theorem function_succ : Gives Node.Headed (Parse.function (n + 1)) := by
  rw [Parse.function]
  refine .after _ fun _ => .after _ fun name => .after _ fun _ => .after _ fun params => ?_
  refine .after _ fun l => ?_
  split
  · exact .after _ fun _ => ih.expression.part.bind fun body hb => .ret (.function hb)
  · refine .after _ fun _ => ih.statements.part.bind fun body hb => ?_
    exact .after _ fun _ => .ret (.function hb)
  · exact .reject _

theorem succ : Heading (n + 1) where
  statements := ih.statements_succ
  moreStatements := ih.moreStatements_succ
  statement := ih.statement_succ
  expression := ih.expression_succ
  negation := ih.negation_succ
  chain := ih.chain_succ
  moreOperands := ih.moreOperands_succ
  operand := ih.operand_succ
  factor := ih.factor_succ
  call := ih.call_succ
  moreItems := ih.moreItems_succ
  atom := ih.atom_succ
  listLiteral := ih.listLiteral_succ
  branch := ih.branch_succ
  cases := ih.cases_succ
  moreCases := ih.moreCases_succ
  fallback := ih.fallback_succ
  loopBody := ih.loopBody_succ
  forLoop := ih.forLoop_succ
  whileLoop := ih.whileLoop_succ
  function := ih.function_succ

end Heading

theorem heading : ∀ n, Heading n
  | 0 => .zero
  | n + 1 => (heading n).succ

end Parse

/-- Every tree that is read from a text has its calls start where their callees do. -/
theorem Node.headed_ofTokens {ts : List Token} {tree : Node} (h : Node.ofTokens ts = .ok tree) :
    tree.Headed := by
  have hprogram (n : Nat) : Parse.Gives Node.Headed (Parse.program n) := by
    refine (Parse.heading n).statements.bind fun body hbody => .after _ fun l => ?_
    split
    · exact .ret hbody
    · exact .reject _
  rcases ts with _ | ⟨t, rest⟩
  · cases h
  · exact hprogram _ _ _ _ ⟨_, _, rfl, rfl, Prod.ext h rfl⟩

end Think
