import Think.Proofs.Parse.Mirror

/-! # Productions at a seam

What each production does where one text ends and another goes on. A production that ends before
the seam yields the same to all readers. One that reaches it either stops there, or it ends in the
block of an `if` that nothing has closed, and then the block takes in what follows.
-/

namespace Think.Parse

variable {ι α β : Type}

section Yield

variable (M : Option (Seam ι))

def Tree : Node → (ι → Node) → Feed → (ι → Feed) → Prop :=
  After M (fun n n' => n'.shape = n.shape) fun bs n n' => Node.Absorbs bs n.shape n'.shape

def OptionalTree : Option Node → (ι → Option Node) → Feed → (ι → Feed) → Prop :=
  After M (fun o o' => Node.optionShape o' = Node.optionShape o) fun bs o o' =>
    ∃ n n', Node.optionShape o = some n ∧ Node.optionShape o' = some n' ∧ Node.Absorbs bs n n'

def Items : List Node → (ι → List Node) → Feed → (ι → Feed) → Prop :=
  After M (fun ns ns' => Node.shapes ns' = Node.shapes ns) fun _ _ _ => True

def BranchCases : Cases → (ι → Cases) → Feed → (ι → Feed) → Prop :=
  After M (fun cs cs' => (branchNode cs').shape = (branchNode cs).shape) fun bs cs cs' =>
    Node.Absorbs bs (branchNode cs).shape (branchNode cs').shape

def Fallback : Option (Node × Bool) → (ι → Option (Node × Bool)) → Feed → (ι → Feed) → Prop :=
  After M (fun o o' => Node.bodyShape o' = Node.bodyShape o) fun bs o o' =>
    ∃ n n', Node.bodyShape o = some (n, false) ∧ Node.bodyShape o' = some (n', false) ∧
      Node.Absorbs bs n n'

def Body : Node × Bool → (ι → Node × Bool) → Feed → (ι → Feed) → Prop :=
  After M (fun b b' => b'.1.shape = b.1.shape ∧ b'.2 = b.2) fun bs b b' =>
    b.2 = false ∧ b'.2 = false ∧ Node.Absorbs bs b.1.shape b'.1.shape

/-- Statements gathered up to a seam take in what follows it. -/
inductive Gathered : List Node → (ι → List Node) → Feed → (ι → Feed) → Prop
  | same {ns nss f g} : (∀ i, Node.shapes (nss i) = Node.shapes ns) → Beside M f g →
      (M = none ∨ f.current.lexeme ≠ .endOfText) → Gathered ns nss f g
  | grown {ns nss f g} (S : Seam ι) : M = some S →
      (∀ i, Node.Absorbs (S.added i) (.list default (Node.shapes ns))
        (.list default (Node.shapes (nss i)))) →
      f.AtEnd → (∀ i, (g i).AtEnd) → Gathered ns nss f g
  | absorbed {ns nss f g} (S : Seam ι) : M = some S →
      (∀ i, Node.shapes (nss i) = Node.shapes ns ++ S.added i) → f.AtEnd →
      (∀ i, (g i).lexemes = S.after i) → Gathered ns nss f g

def Block (n : Node) (ns : ι → Node) (f : Feed) (g : ι → Feed) : Prop :=
  ∃ (s : Span) (ms : List Node) (ss : ι → Span) (mss : ι → List Node),
    n = .list s ms ∧ (ns = fun i => .list (ss i) (mss i)) ∧ Gathered M ms mss f g

end Yield

variable {M : Option (Seam ι)} {n : Nat} {m : ι → Nat} {p : Progress} {q : ι → Progress}

theorem Gathered.cons {s : Node} {ss : ι → Node} {ns : List Node} {nss : ι → List Node} {f : Feed}
    {g : ι → Feed} (hs : ∀ i, (ss i).shape = s.shape) (h : Gathered M ns nss f g) :
    Gathered M (s :: ns) (fun i => ss i :: nss i) f g := by
  cases h with
  | same h hr hin =>
    refine .same (fun i => ?_) hr hin
    rw [Node.shapes, Node.shapes, hs i, h i]
  | grown S hM h hf hg =>
    refine .grown S hM (fun i => ?_) hf hg
    rw [Node.shapes, Node.shapes, hs i]
    exact (h i).cons
  | absorbed S hM h hf hg =>
    refine .absorbed S hM (fun i => ?_) hf hg
    rw [Node.shapes, Node.shapes, hs i, h i, List.cons_append]

/-- A last statement that absorbs leaves the readers at their ends. -/
theorem Gathered.single {S : Seam ι} {s : Node} {ss : ι → Node} {f : Feed} {g : ι → Feed}
    (hM : M = some S) (h : ∀ i, Node.Absorbs (S.added i) s.shape (ss i).shape) (hf : f.AtEnd)
    (hg : ∀ i, (g i).AtEnd) : Gathered M [s] (fun i => [ss i]) f g :=
  .grown S hM (fun i => .only (h i)) hf hg

theorem Mirrors.ends {s : Prop} {x : Parse α} {y : ι → Parse α} {a : α} {as : ι → α}
    (hx : EndsWith x a p) (hy : ∀ i, EndsWith (y i) (as i) (q i)) :
    Mirrors s (fun b bs f g => b = a ∧ bs = as ∧ f.AtEnd ∧ ∀ i, (g i).AtEnd) x y p q := by
  unfold Mirrors
  obtain ⟨p', hp'⟩ | ⟨p', hp', hend⟩ := hx
  · rw [hp']
    exact .exhausted
  · rw [hp']
    by_cases hex : ∃ i q', y i (q i) = (.error .exhausted, q')
    · obtain ⟨i, q', he⟩ := hex
      exact .elsewhere i q' he
    · choose q' hq' hends using fun i =>
        (hy i).resolve_left fun he => hex ⟨i, he⟩
      exact .ok as q' hq' ⟨rfl, rfl, hend, hends⟩

theorem Mirrors.closeParen {s : Prop} {Q : β → (ι → β) → Feed → (ι → Feed) → Prop} {b : β}
    {bs : ι → β} {details : String} (hr : Beside M p.feed fun i => (q i).feed)
    (hb : ∀ f g, Beside M f g → Q b bs f g) :
    Mirrors s Q
      (do
        match ← Parse.lexeme with
        | .closeParen => Parse.advance; return b
        | _ => Parse.reject details)
      (fun i => do
        match ← Parse.lexeme with
        | .closeParen => Parse.advance; return bs i
        | _ => Parse.reject details) p q := by
  apply Mirrors.lexeme
  obtain hc | ⟨S, rfl, he⟩ := hr.view
  · simp only [hc.lexeme]
    split
    · exact .advance hc fun p' q' hr' => .ret (hb _ _ hr')
    · exact .reject
  · simp only [he.here.current, fun i => Feed.current_of_lexemes (he.there i)]
    exact .reject

theorem Mirrors.closeParen_end {s : Prop} {Q : β → (ι → β) → Feed → (ι → Feed) → Prop} {b : β}
    {bs : ι → β} {details : String} (hp : p.feed.AtEnd) (hq : ∀ i, (q i).feed.AtEnd) :
    Mirrors s Q
      (do
        match ← Parse.lexeme with
        | .closeParen => Parse.advance; return b
        | _ => Parse.reject details)
      (fun i => do
        match ← Parse.lexeme with
        | .closeParen => Parse.advance; return bs i
        | _ => Parse.reject details) p q := by
  apply Mirrors.lexeme
  simp only [hp.current, fun i => (hq i).current]
  exact .reject

/-- What the readers make of each production. Forms that end with a word of their own may go on at
a seam where the first reader fails, so only the others are strict. -/
structure Mirrored (M : Option (Seam ι)) (n : Nat) : Prop where
  statements : ∀ (m : ι → Nat) p q, Beside M p.feed (fun i => (q i).feed) →
    Mirrors (M = none) (Block M) (statements n) (fun i => statements (m i)) p q
  moreStatements : ∀ (m : ι → Nat) p q, Beside M p.feed (fun i => (q i).feed) →
    Mirrors (M = none) (Gathered M) (moreStatements n) (fun i => moreStatements (m i)) p q
  statement : ∀ (m : ι → Nat) p q, Beside M p.feed (fun i => (q i).feed) →
    Mirrors True (Tree M) (statement n) (fun i => statement (m i)) p q
  expression : ∀ (m : ι → Nat) p q, Beside M p.feed (fun i => (q i).feed) →
    Mirrors True (Tree M) (expression n) (fun i => expression (m i)) p q
  negation : ∀ (m : ι → Nat) p q, Beside M p.feed (fun i => (q i).feed) →
    Mirrors True (Tree M) (negation n) (fun i => negation (m i)) p q
  chain : ∀ (m : ι → Nat) l p q, Beside M p.feed (fun i => (q i).feed) →
    Mirrors True (Tree M) (chain n l) (fun i => chain (m i) l) p q
  moreOperands : ∀ (m : ι → Nat) l a (as : ι → Node) p q, (∀ i, (as i).shape = a.shape) →
    Beside M p.feed (fun i => (q i).feed) →
    Mirrors True (Tree M) (moreOperands n l a) (fun i => moreOperands (m i) l (as i)) p q
  operand : ∀ (m : ι → Nat) l p q, Beside M p.feed (fun i => (q i).feed) →
    Mirrors True (Tree M) (operand n l) (fun i => operand (m i) l) p q
  factor : ∀ (m : ι → Nat) p q, Beside M p.feed (fun i => (q i).feed) →
    Mirrors True (Tree M) (factor n) (fun i => factor (m i)) p q
  call : ∀ (m : ι → Nat) p q, Beside M p.feed (fun i => (q i).feed) →
    Mirrors True (Tree M) (call n) (fun i => call (m i)) p q
  moreItems : ∀ (m : ι → Nat) p q, Beside M p.feed (fun i => (q i).feed) →
    Mirrors True (Items M) (moreItems n) (fun i => moreItems (m i)) p q
  atom : ∀ (m : ι → Nat) p q, Beside M p.feed (fun i => (q i).feed) →
    Mirrors True (Tree M) (atom n) (fun i => atom (m i)) p q
  listLiteral : ∀ (m : ι → Nat) p q, Beside M p.feed (fun i => (q i).feed) →
    Mirrors True (Tree M) (listLiteral n) (fun i => listLiteral (m i)) p q
  branch : ∀ (m : ι → Nat) p q, Beside M p.feed (fun i => (q i).feed) →
    Mirrors (M = none) (Tree M) (branch n) (fun i => branch (m i)) p q
  cases : ∀ (m : ι → Nat) w p q, Beside M p.feed (fun i => (q i).feed) →
    Mirrors (M = none) (BranchCases M) (cases n w) (fun i => cases (m i) w) p q
  moreCases : ∀ (m : ι → Nat) p q, Beside M p.feed (fun i => (q i).feed) →
    Mirrors (M = none) (BranchCases M) (moreCases n) (fun i => moreCases (m i)) p q
  fallback : ∀ (m : ι → Nat) p q, Beside M p.feed (fun i => (q i).feed) →
    Mirrors (M = none) (Fallback M) (fallback n) (fun i => fallback (m i)) p q
  loopBody : ∀ (m : ι → Nat) p q, Beside M p.feed (fun i => (q i).feed) →
    Mirrors (M = none) (Body M) (loopBody n) (fun i => loopBody (m i)) p q
  forLoop : ∀ (m : ι → Nat) p q, Beside M p.feed (fun i => (q i).feed) →
    Mirrors (M = none) (Tree M) (forLoop n) (fun i => forLoop (m i)) p q
  whileLoop : ∀ (m : ι → Nat) p q, Beside M p.feed (fun i => (q i).feed) →
    Mirrors (M = none) (Tree M) (whileLoop n) (fun i => whileLoop (m i)) p q
  function : ∀ (m : ι → Nat) p q, Beside M p.feed (fun i => (q i).feed) →
    Mirrors (M = none) (Tree M) (function n) (fun i => function (m i)) p q

namespace Mirrored

theorem zero : Mirrored M 0 := by
  constructor
  all_goals intros; exact .zero_left

variable (ih : Mirrored M n)

include ih

theorem optional (hr : Beside M p.feed fun i => (q i).feed) :
    Mirrors True (OptionalTree M) (attempt (Parse.expression n))
      (fun i => attempt (Parse.expression (m i))) p q := by
  refine (Mirrors.attempt (ih.expression m _ _ hr)).mono id fun o os f g h => ?_
  obtain ⟨a, as, rfl, rfl, h⟩ | ⟨rfl, rfl, rfl, rfl⟩ := h
  · cases h with
    | same h hr => exact .same (fun i => congrArg some (h i)) hr
    | grown S hM h hf hg => exact .grown S hM (fun i => ⟨_, _, rfl, rfl, h i⟩) hf hg
  · exact .same (fun _ => rfl) hr

theorem statement_succ (hr : Beside M p.feed fun i => (q i).feed) :
    Mirrors True (Tree M) (Parse.statement (n + 1)) (fun i => Parse.statement (m i + 1)) p q := by
  have hother : Mirrors True (Tree M) (partOr statementDetails (Parse.expression n))
      (fun i => partOr statementDetails (Parse.expression (m i))) p q :=
    .partOr (ih.expression m _ _ hr)
  simp only [Parse.statement]
  apply Mirrors.current
  apply Mirrors.lexeme
  obtain hc | ⟨S, rfl, he⟩ := hr.view
  · simp only [hc.lexeme]
    split
    · refine .advance hc fun p₁ q₁ hr₁ => .next (ih.optional hr₁) ?_ ?_
      · intro v vs p₂ q₂ hv hr₂
        exact .current <| .ret <| .same (fun i => congrArg (Node.ret default) (hv i)) hr₂
      · intro S v vs p₂ q₂ hM hv hp hq
        refine .current <| .ret <| .grown S hM (fun i => ?_) hp hq
        obtain ⟨e, e', h, h', ha⟩ := hv i
        rw [Node.shape, Node.shape, h, h']
        exact .ret ha
    · refine .advance hc fun p₁ q₁ hr₁ => .next (ih.optional hr₁) ?_ ?_
      · intro v vs p₂ q₂ hv hr₂
        exact .current <| .ret <| .same (fun i => congrArg (Node.think default) (hv i)) hr₂
      · intro S v vs p₂ q₂ hM hv hp hq
        refine .current <| .ret <| .grown S hM (fun i => ?_) hp hq
        obtain ⟨e, e', h, h', ha⟩ := hv i
        rw [Node.shape, Node.shape, h, h']
        exact .think ha
    · exact .advance hc fun _ _ hr₁ => .current <| .ret <| .same (fun _ => rfl) hr₁
    · exact .advance hc fun _ _ hr₁ => .current <| .ret <| .same (fun _ => rfl) hr₁
    · exact hother
  · simp only [he.here.current, fun i => Feed.current_of_lexemes (he.there i)]
    exact hother

theorem expression_succ (hr : Beside M p.feed fun i => (q i).feed) :
    Mirrors True (Tree M) (Parse.expression (n + 1)) (fun i => Parse.expression (m i + 1)) p q := by
  have hother : Mirrors True (Tree M) (partOr expressionDetails (Parse.chain n .logic))
      (fun i => partOr expressionDetails (Parse.chain (m i) .logic)) p q :=
    .partOr (ih.chain m _ _ _ hr)
  simp only [Parse.expression]
  apply Mirrors.lexeme
  obtain hc | ⟨S, rfl, he⟩ := hr.view
  · simp only [hc.lexeme]
    split
    · refine .advance hc fun p₁ q₁ hr₁ => .identifier hr₁ fun name at_ ats p₂ q₂ hr₂ => ?_
      refine .assignSign hr₂ fun p₃ q₃ hr₃ => .next (.part (ih.expression m _ _ hr₃)) ?_ ?_
      · intro v vs p₄ q₄ hv hr₄
        exact .ret <| .same (fun i => congrArg (Node.assign default name) (hv i)) hr₄
      · intro S v vs p₄ q₄ hM hv hp hq
        exact .ret <| .grown S hM (fun i => .assign (hv i)) hp hq
    · refine .advance hc fun p₁ q₁ hr₁ => .current ?_
      obtain hc | ⟨S, rfl, he⟩ := hr₁.view
      · simp only [hc.lexeme]
        split
        · exact .advance hc fun _ _ hr₂ => .ret <| .same (fun _ => rfl) hr₂
        · exact .reject
      · simp only [he.here.current, fun i => Feed.current_of_lexemes (he.there i)]
        exact .reject
    · exact hother
  · simp only [he.here.current, fun i => Feed.current_of_lexemes (he.there i)]
    exact hother

theorem negation_succ (hr : Beside M p.feed fun i => (q i).feed) :
    Mirrors True (Tree M) (Parse.negation (n + 1)) (fun i => Parse.negation (m i + 1)) p q := by
  have hother : Mirrors True (Tree M) (partOr comparisonDetails (Parse.chain n .comparison))
      (fun i => partOr comparisonDetails (Parse.chain (m i) .comparison)) p q :=
    .partOr (ih.chain m _ _ _ hr)
  simp only [Parse.negation]
  apply Mirrors.current
  obtain hc | ⟨S, rfl, he⟩ := hr.view
  · simp only [hc.lexeme]
    split
    · refine .advance hc fun p₁ q₁ hr₁ => .next (.part (ih.negation m _ _ hr₁)) ?_ ?_
      · intro a as p₂ q₂ ha hr₂
        exact .ret <| .same (fun i => congrArg (Node.unary default .not) (ha i)) hr₂
      · intro S a as p₂ q₂ hM ha hp hq
        exact .ret <| .grown S hM (fun i => .unary (ha i)) hp hq
    · exact hother
  · simp only [he.here.current, fun i => Feed.current_of_lexemes (he.there i)]
    exact hother

theorem chain_succ (l : Level) (hr : Beside M p.feed fun i => (q i).feed) :
    Mirrors True (Tree M) (Parse.chain (n + 1) l) (fun i => Parse.chain (m i + 1) l) p q := by
  simp only [Parse.chain]
  refine .next (.part (ih.operand m l _ _ hr)) ?_ ?_
  · intro a as p₁ q₁ ha hr₁
    exact ih.moreOperands m l a as p₁ q₁ ha hr₁
  · intro S a as p₁ q₁ hM ha hp hq
    refine (Mirrors.ends (moreOperands_ends n l a hp) fun i =>
      moreOperands_ends (m i) l (as i) (hq i)).mono id ?_
    rintro _ _ f g ⟨rfl, rfl, hf, hg⟩
    exact .grown S hM ha hf hg

theorem rightOperand (l : Level) (hr : Beside M p.feed fun i => (q i).feed) :
    Mirrors True (Tree M) (Parse.rightOperand n l) (fun i => Parse.rightOperand (m i) l) p q := by
  cases l
  case power => exact ih.factor m p q hr
  all_goals exact ih.operand m _ p q hr

theorem moreOperands_succ (l : Level) {a : Node} {as : ι → Node}
    (ha : ∀ i, (as i).shape = a.shape) (hr : Beside M p.feed fun i => (q i).feed) :
    Mirrors True (Tree M) (Parse.moreOperands (n + 1) l a)
      (fun i => Parse.moreOperands (m i + 1) l (as i)) p q := by
  simp only [Parse.moreOperands_succ]
  apply Mirrors.lexeme
  obtain hc | ⟨S, rfl, he⟩ := hr.view
  · simp only [hc.lexeme]
    split
    · exact .ret <| .same ha hr
    · next op _ =>
      refine .advance hc fun p₁ q₁ hr₁ => .next (.part (ih.rightOperand l hr₁)) ?_ ?_
      · intro b bs p₂ q₂ hb hr₂
        refine ih.moreOperands m l _ (fun i => joined op (as i) (bs i)) p₂ q₂ (fun i => ?_) hr₂
        rw [joined, joined, Node.shape, Node.shape, ha i, hb i]
      · intro S b bs p₂ q₂ hM hb hp hq
        refine (Mirrors.ends (moreOperands_ends n l _ hp) fun i =>
          moreOperands_ends (m i) l _ (hq i)).mono id ?_
        rintro _ _ f g ⟨rfl, rfl, hf, hg⟩
        refine .grown S hM (fun i => ?_) hf hg
        rw [joined, joined, Node.shape, Node.shape, ha i]
        exact .right (hb i)
  · have hnone : l.op? .endOfText = none ∧ l.op? .newline = none := by
      cases l <;> exact ⟨rfl, rfl⟩
    simp only [he.here.current, fun i => Feed.current_of_lexemes (he.there i), hnone.1, hnone.2]
    exact .ret <| .same ha hr

theorem operand_succ (l : Level) (hr : Beside M p.feed fun i => (q i).feed) :
    Mirrors True (Tree M) (Parse.operand (n + 1) l) (fun i => Parse.operand (m i + 1) l) p q := by
  cases l <;> simp only [Parse.operand]
  case logic => exact ih.negation m p q hr
  case product => exact ih.factor m p q hr
  case power => exact ih.call m p q hr
  all_goals exact ih.chain m _ p q hr

theorem factor_succ (hr : Beside M p.feed fun i => (q i).feed) :
    Mirrors True (Tree M) (Parse.factor (n + 1)) (fun i => Parse.factor (m i + 1)) p q := by
  have hsigned (op : UnaryOp) (s : Position) (ss : ι → Position)
      (hc : Common M p.feed fun i => (q i).feed) :
      Mirrors True (Tree M)
        (advance >>= fun _ => part (Parse.factor n) >>= fun a => pure (.unary ⟨s, a.stop⟩ op a))
        (fun i => advance >>= fun _ => part (Parse.factor (m i)) >>= fun a =>
          pure (.unary ⟨ss i, a.stop⟩ op a)) p q := by
    refine .advance hc fun p₁ q₁ hr₁ => .next (.part (ih.factor m _ _ hr₁)) ?_ ?_
    · intro a as p₂ q₂ ha hr₂
      exact .ret <| .same (fun i => congrArg (Node.unary default op) (ha i)) hr₂
    · intro S a as p₂ q₂ hM ha hp hq
      exact .ret <| .grown S hM (fun i => .unary (ha i)) hp hq
  simp only [Parse.factor]
  apply Mirrors.current
  obtain hc | ⟨S, rfl, he⟩ := hr.view
  · simp only [hc.lexeme]
    split
    · exact hsigned .plus _ _ hc
    · exact hsigned .minus _ _ hc
    · exact ih.chain m _ p q hr
  · simp only [he.here.current, fun i => Feed.current_of_lexemes (he.there i)]
    exact ih.chain m _ p q hr

theorem moreItems_succ (hr : Beside M p.feed fun i => (q i).feed) :
    Mirrors True (Items M) (Parse.moreItems (n + 1)) (fun i => Parse.moreItems (m i + 1)) p q := by
  simp only [Parse.moreItems]
  apply Mirrors.lexeme
  obtain hc | ⟨S, rfl, he⟩ := hr.view
  · simp only [hc.lexeme]
    split
    · refine .advance hc fun p₁ q₁ hr₁ => .next (.part (ih.expression m _ _ hr₁)) ?_ ?_
      · intro a as p₂ q₂ ha hr₂
        refine .next (ih.moreItems m p₂ q₂ hr₂) ?_ ?_
        · intro ns nss p₃ q₃ hns hr₃
          exact .ret <| .same (fun i => by rw [Node.shapes, Node.shapes, ha i, hns i]) hr₃
        · intro S ns nss p₃ q₃ hM _ hp hq
          exact .ret <| .grown S hM (fun _ => trivial) hp hq
      · intro S a as p₂ q₂ hM _ hp hq
        refine .bind (.ends (moreItems_ends n hp) fun i => moreItems_ends (m i) (hq i))
          fun ns nss p₃ q₃ h => ?_
        obtain ⟨-, -, hp, hq⟩ := h
        exact .ret <| .grown S hM (fun _ => trivial) hp hq
    · exact .ret <| .same (fun _ => rfl) hr
  · simp only [he.here.current, fun i => Feed.current_of_lexemes (he.there i)]
    exact .ret <| .same (fun _ => rfl) hr

/-- Expressions between brackets. At a seam the closing bracket is missing. -/
theorem items {Q : β → (ι → β) → Feed → (ι → Feed) → Prop} {details : String}
    {k : Node → List Node → Parse β} {l : ι → Node → List Node → Parse β}
    (hr : Beside M p.feed fun i => (q i).feed)
    (hsame : ∀ a (as : ι → Node) ns (nss : ι → List Node) p' q', (∀ i, (as i).shape = a.shape) →
      (∀ i, Node.shapes (nss i) = Node.shapes ns) → Beside M p'.feed (fun i => (q' i).feed) →
      Mirrors True Q (k a ns) (fun i => l i (as i) (nss i)) p' q')
    (hend : ∀ a (as : ι → Node) ns (nss : ι → List Node) p' q', p'.feed.AtEnd →
      (∀ i, (q' i).feed.AtEnd) → Mirrors True Q (k a ns) (fun i => l i (as i) (nss i)) p' q') :
    Mirrors True Q
      (partOr details (Parse.expression n) >>= fun a => Parse.moreItems n >>= fun ns => k a ns)
      (fun i => partOr details (Parse.expression (m i)) >>= fun a =>
        Parse.moreItems (m i) >>= fun ns => l i a ns) p q := by
  refine .next (.partOr (ih.expression m _ _ hr)) ?_ ?_
  · intro a as p₁ q₁ ha hr₁
    refine .next (ih.moreItems m p₁ q₁ hr₁) ?_ ?_
    · intro ns nss p₂ q₂ hns hr₂
      exact hsame a as ns nss p₂ q₂ ha hns hr₂
    · intro S ns nss p₂ q₂ _ _ hp hq
      exact hend a as ns nss p₂ q₂ hp hq
  · intro S a as p₁ q₁ _ _ hp hq
    refine .bind (.ends (moreItems_ends n hp) fun i => moreItems_ends (m i) (hq i))
      fun ns nss p₂ q₂ h => ?_
    obtain ⟨-, -, hp, hq⟩ := h
    exact hend a as ns nss p₂ q₂ hp hq

theorem arguments {callee : Node} {callees : ι → Node} {details : String}
    (hcallee : ∀ i, (callees i).shape = callee.shape) (hr : Beside M p.feed fun i => (q i).feed) :
    Mirrors True (Tree M)
      (do
        let first ← partOr details (Parse.expression n)
        let others ← Parse.moreItems n
        match ← lexeme with
        | .closeParen => advance; return callNode callee (first :: others)
        | _ => reject "Expected ',' or ')'")
      (fun i => do
        let first ← partOr details (Parse.expression (m i))
        let others ← Parse.moreItems (m i)
        match ← lexeme with
        | .closeParen => advance; return callNode (callees i) (first :: others)
        | _ => reject "Expected ',' or ')'") p q := by
  apply ih.items hr
  · intro a as ns nss p₁ q₁ ha hns hr₁
    refine .closeParen hr₁ fun f g hr₂ => .same (fun i => ?_) hr₂
    rw [callNode, callNode, Node.shape, Node.shape, hcallee i, Node.shapes, Node.shapes, ha i,
      hns i]
  · intro a as ns nss p₁ q₁ hp hq
    exact .closeParen_end hp hq

theorem call_succ (hr : Beside M p.feed fun i => (q i).feed) :
    Mirrors True (Tree M) (Parse.call (n + 1)) (fun i => Parse.call (m i + 1)) p q := by
  simp only [Parse.call]
  refine .next (.part (ih.atom m _ _ hr)) ?_ ?_
  · intro callee callees p₁ q₁ hcallee hr₁
    apply Mirrors.lexeme
    obtain hc | ⟨S, rfl, he⟩ := hr₁.view
    · simp only [hc.lexeme]
      split
      · refine .advance hc fun p₂ q₂ hr₂ => .lexeme ?_
        obtain hc | ⟨S, rfl, he⟩ := hr₂.view
        · simp only [hc.lexeme]
          split
          · refine .advance hc fun p₃ q₃ hr₃ => .ret <| .same (fun i => ?_) hr₃
            rw [callNode, callNode, Node.shape, Node.shape, hcallee i]
          · exact ih.arguments hcallee hr₂
        · simp only [he.here.current, fun i => Feed.current_of_lexemes (he.there i)]
          exact ih.arguments hcallee hr₂
      · exact .ret <| .same hcallee hr₁
    · simp only [he.here.current, fun i => Feed.current_of_lexemes (he.there i)]
      exact .ret <| .same hcallee hr₁
  · intro S callee callees p₁ q₁ hM hcallee hp hq
    apply Mirrors.lexeme
    simp only [hp.current, fun i => (hq i).current]
    exact .ret <| .grown S hM hcallee hp hq

theorem listItems {start : Position} {starts : ι → Position} {details : String}
    (hr : Beside M p.feed fun i => (q i).feed) :
    Mirrors True (Tree M)
      (do
        let first ← partOr details (Parse.expression n)
        let others ← Parse.moreItems n
        match ← lexeme with
        | .closeSquare =>
          advance
          return .list ⟨start, (← current).stop⟩ (first :: others)
        | _ => reject "Expected ',' or ']'")
      (fun i => do
        let first ← partOr details (Parse.expression (m i))
        let others ← Parse.moreItems (m i)
        match ← lexeme with
        | .closeSquare =>
          advance
          return .list ⟨starts i, (← current).stop⟩ (first :: others)
        | _ => reject "Expected ',' or ']'") p q := by
  apply ih.items hr
  · intro a as ns nss p₁ q₁ ha hns hr₁
    apply Mirrors.lexeme
    obtain hc | ⟨S, rfl, he⟩ := hr₁.view
    · simp only [hc.lexeme]
      split
      · refine .advance hc fun p₂ q₂ hr₂ => .current <| .ret <| .same (fun i => ?_) hr₂
        rw [Node.shape, Node.shape, Node.shapes, Node.shapes, ha i, hns i]
      · exact .reject
    · simp only [he.here.current, fun i => Feed.current_of_lexemes (he.there i)]
      exact .reject
  · intro a as ns nss p₁ q₁ hp hq
    apply Mirrors.lexeme
    simp only [hp.current, fun i => (hq i).current]
    exact .reject

theorem listLiteral_succ (hr : Beside M p.feed fun i => (q i).feed) :
    Mirrors True (Tree M) (Parse.listLiteral (n + 1)) (fun i => Parse.listLiteral (m i + 1))
      p q := by
  simp only [Parse.listLiteral]
  apply Mirrors.current
  apply Mirrors.lexeme
  obtain hc | ⟨S, rfl, he⟩ := hr.view
  · simp only [hc.lexeme]
    split
    · refine .advance hc fun p₁ q₁ hr₁ => .lexeme ?_
      obtain hc | ⟨S, rfl, he⟩ := hr₁.view
      · simp only [hc.lexeme]
        split
        · exact .advance hc fun p₂ q₂ hr₂ => .current <| .ret <| .same (fun _ => rfl) hr₂
        · exact ih.listItems hr₁
      · simp only [he.here.current, fun i => Feed.current_of_lexemes (he.there i)]
        exact ih.listItems hr₁
    · exact .reject_bind
  · simp only [he.here.current, fun i => Feed.current_of_lexemes (he.there i)]
    exact .reject_bind

omit ih in
/-- A form that opens with a word of its own is read by all readers, since the first one does not
fail on it. -/
theorem opener {w : Keyword} (hr : Beside M p.feed fun i => (q i).feed)
    (hw : p.feed.current.lexeme = .keyword w) (ho : (Lexeme.keyword w).opens)
    (h : Mirrors (M = none) (Tree M) (form n w) (fun i => form (m i) w) (.start p.feed)
      fun i => .start (q i).feed) :
    Mirrors True (Tree M) (part (form n w)) (fun i => part (form (m i) w)) p q := by
  cases M with
  | none => exact (Mirrors.part h).mono (fun _ => rfl) fun _ _ _ _ => id
  | some S =>
    obtain ⟨ls, hls, hf, -⟩ := hr
    cases ls with
    | nil =>
      rw [Feed.current_of_lexemes hf] at hw
      cases hw
    | cons l ls =>
      refine (Mirrors.part h).strict fun e p' he => ?_
      rw [← atom_form hw ho] at he
      rw [Feed.current_of_lexemes hf] at hw
      exact S.lively ls l hls (hw ▸ ho) (n + 1) p hf e p' he

theorem atom_succ (hr : Beside M p.feed fun i => (q i).feed) :
    Mirrors True (Tree M) (Parse.atom (n + 1)) (fun i => Parse.atom (m i + 1)) p q := by
  simp only [Parse.atom]
  apply Mirrors.current
  obtain hc | ⟨S, rfl, he⟩ := hr.view
  · simp only [hc.lexeme]
    split
    · exact .advance hc fun p₂ q₂ hr₂ => .ret <| .same (fun _ => rfl) hr₂
    · exact .advance hc fun p₂ q₂ hr₂ => .ret <| .same (fun _ => rfl) hr₂
    · exact .advance hc fun p₂ q₂ hr₂ => .ret <| .same (fun _ => rfl) hr₂
    · exact .advance hc fun p₂ q₂ hr₂ => .ret <| .same (fun _ => rfl) hr₂
    · refine .advance hc fun p₁ q₁ hr₁ => .next (.part (ih.expression m _ _ hr₁)) ?_ ?_
      · intro a as p₂ q₂ ha hr₂
        exact .closeParen hr₂ fun f g hr₃ => .same ha hr₃
      · intro S a as p₂ q₂ _ _ hp hq
        exact .closeParen_end hp hq
    · exact .part (ih.listLiteral m _ _ hr)
    · next hw => exact opener hr hw rfl (ih.branch m _ _ hr)
    · next hw => exact opener hr hw rfl (ih.forLoop m _ _ hr)
    · next hw => exact opener hr hw rfl (ih.whileLoop m _ _ hr)
    · next hw => exact opener hr hw rfl (ih.function m _ _ hr)
    · exact .reject
  · simp only [he.here.current, fun i => Feed.current_of_lexemes (he.there i)]
    exact .reject

theorem moreStatements_succ (hr : Beside M p.feed fun i => (q i).feed) :
    Mirrors (M = none) (Gathered M) (Parse.moreStatements (n + 1))
      (fun i => Parse.moreStatements (m i + 1)) p q := by
  obtain ⟨hb, hr', hin⟩ | ⟨S, rfl, hend, hthere⟩ := hr.breaks
  · simp only [Parse.moreStatements]
    refine .newlines hb fun p₁ q₁ hp₁ hq₁ => ?_
    rw [← hp₁, ← hq₁] at hr'
    rw [← hp₁] at hin
    split
    · exact .ret <| .same (fun _ => rfl) hr' hin
    · refine .bind (.attempt (ih.statement m _ _ hr')) fun o os p₂ q₂ h => ?_
      obtain ⟨a, as, rfl, rfl, h⟩ | ⟨rfl, rfl, hp₂, hq₂⟩ := h
      · cases h with
        | same ha hr₂ =>
          exact .bind (ih.moreStatements m p₂ q₂ hr₂) fun _ _ _ _ h => .ret (h.cons ha)
        | grown S hM ha hp hq =>
          refine .bind
            (.ends (moreStatements_atEnd n hp) fun i => moreStatements_atEnd (m i) (hq i))
            fun ns nss p₃ q₃ h => ?_
          obtain ⟨rfl, rfl, hp, hq⟩ := h
          exact .ret (.single hM ha hp hq)
      · rw [← hp₂, ← hq₂] at hr'
        rw [← hp₂] at hin
        exact .ret <| .same (fun _ => rfl) hr' hin
  · unfold Mirrors
    obtain ⟨p', hp'⟩ | ⟨p', hp', hend'⟩ := moreStatements_ends (n + 1) hend
    · rw [hp']
      exact .exhausted
    · rw [hp']
      by_cases hex : ∃ i q', Parse.moreStatements (m i + 1) (q i) = (.error .exhausted, q')
      · obtain ⟨i, q', he⟩ := hex
        exact .elsewhere i q' he
      · have hok : ∀ i, ∃ ns q', Parse.moreStatements (m i + 1) (q i) = (.ok ns, q') ∧
            Node.shapes ns = S.added i ∧ q'.feed.lexemes = S.after i := by
          intro i
          obtain ⟨k, hk⟩ := hthere i
          refine ((S.next i).gathers k (m i + 1) (q i) hk).resolve_left fun he => ?_
          exact hex ⟨i, _, Prod.ext he rfl⟩
        choose nss q' hq' hns hafter using hok
        exact .ok nss q' hq' (.absorbed S rfl hns hend' hafter)

theorem statements_succ (hr : Beside M p.feed fun i => (q i).feed) :
    Mirrors (M = none) (Block M) (Parse.statements (n + 1)) (fun i => Parse.statements (m i + 1))
      p q := by
  simp only [Parse.statements]
  apply Mirrors.current
  obtain ⟨hb, hr', hin⟩ | ⟨S, rfl, hend, hthere⟩ := hr.breaks
  · refine .newlines hb fun p₁ q₁ hp₁ hq₁ => ?_
    rw [← hp₁, ← hq₁] at hr'
    refine .next (.part (.loosen (ih.statement m _ _ hr'))) ?_ ?_
    · intro a as p₂ q₂ ha hr₂
      refine .bind (ih.moreStatements m p₂ q₂ hr₂) fun ns nss p₃ q₃ h => .current <| .ret ?_
      exact ⟨_, _, _, _, rfl, rfl, h.cons ha⟩
    · intro S a as p₂ q₂ hM ha hp hq
      refine .bind (.ends (moreStatements_atEnd n hp) fun i => moreStatements_atEnd (m i) (hq i))
        fun ns nss p₃ q₃ h => .current <| .ret ?_
      obtain ⟨rfl, rfl, hp, hq⟩ := h
      exact ⟨_, _, _, _, rfl, rfl, .single hM ha hp hq⟩
  · refine .of_error (by simp) ?_
    exact Errs.newlines (.bind (.statement n hend))

theorem branch_succ (hr : Beside M p.feed fun i => (q i).feed) :
    Mirrors (M = none) (Tree M) (Parse.branch (n + 1)) (fun i => Parse.branch (m i + 1)) p q := by
  simp only [Parse.branch]
  refine .next (.part (ih.cases m .ifKw _ _ hr)) ?_ ?_
  · intro cs css p₁ q₁ h hr₁
    exact .ret (.same h hr₁)
  · intro S cs css p₁ q₁ hM h hp hq
    exact .ret (.grown S hM h hp hq)

/-- What follows the body of a case, where the readers are still together. -/
theorem otherCases {c b : Node} {k : Bool} {cs bs : ι → Node} (hc : ∀ i, (cs i).shape = c.shape)
    (hb : ∀ i, (bs i).shape = b.shape) (hr : Beside M p.feed fun i => (q i).feed) :
    Mirrors (M = none) (BranchCases M)
      (do
        let (others, fallback) ← part (Parse.moreCases n)
        return ((c, b, k) :: others, fallback))
      (fun i => do
        let (others, fallback) ← part (Parse.moreCases (m i))
        return ((cs i, bs i, k) :: others, fallback)) p q := by
  refine .next (.part (ih.moreCases m _ _ hr)) ?_ ?_
  · intro ds dss p₁ q₁ h hr₁
    refine .ret (.same (fun i => ?_) hr₁)
    have hi := h i
    simp only [branchNode, Node.shape, Node.branch.injEq, Node.caseShapes, hc i, hb i] at hi ⊢
    exact ⟨hi.1, by rw [hi.2.1], hi.2.2⟩
  · intro S ds dss p₁ q₁ hM h hp hq
    refine .ret (.grown S hM (fun i => ?_) hp hq)
    change Node.Absorbs (S.added i) (.branch default ((c.shape, b.shape, k) :: _) _)
      (.branch default (((cs i).shape, (bs i).shape, k) :: _) _)
    rw [hc i, hb i]
    exact .cons_case (h i)

theorem cases_succ (w : Keyword) (hr : Beside M p.feed fun i => (q i).feed) :
    Mirrors (M = none) (BranchCases M) (Parse.cases (n + 1) w) (fun i => Parse.cases (m i + 1) w)
      p q := by
  simp only [Parse.cases]
  refine .optionalVar hr fun p₁ q₁ hr₁ => .keyword hr₁ fun p₂ q₂ hr₂ => ?_
  refine .next (.part (.loosen (ih.expression m _ _ hr₂))) ?_ ?_
  rotate_left
  · intro S c cs p₃ q₃ hM hc hp hq
    exact .keyword_end hp hq
  intro c cs p₃ q₃ hc hr₃
  refine .keyword hr₃ fun p₄ q₄ hr₄ => .lexeme ?_
  obtain hcom | ⟨S, rfl, he⟩ := hr₄.view
  · simp only [hcom.lexeme]
    split
    · refine .advance hcom fun p₅ q₅ hr₅ => .bind (.part (ih.statements m _ _ hr₅)) ?_
      rintro _ _ p₆ q₆ ⟨s, ns, ss, nss, rfl, rfl, h⟩
      cases h with
      | same hns hr₆ _ =>
        have hb : ∀ i, (Node.list (ss i) (nss i)).shape = (Node.list s ns).shape := fun i =>
          congrArg (Node.list default) (hns i)
        refine .ifKeyword hr₆ (fun _ hcom => .advance hcom fun p₇ q₇ hr₇ => ?_)
          (ih.otherCases hc hb hr₆)
        refine .ret (.same (fun i => ?_) hr₇)
        simp only [branchNode, Node.shape, Node.caseShapes, hc i, hns i]
      | grown S hM hns hp hq =>
        refine (Mirrors.ends (blockCase_ends n c _ (.inl hp)) fun i =>
          blockCase_ends (m i) (cs i) _ (.inl (hq i))).mono id ?_
        rintro _ _ f g ⟨rfl, rfl, hf, hg⟩
        refine .grown S hM (fun i => ?_) hf hg
        change Node.Absorbs _ (.branch default [(c.shape, _, true)] none)
          (.branch default [((cs i).shape, _, true)] none)
        rw [hc i]
        exact .only_case (hns i)
      | absorbed S hM hns hp hq =>
        refine (Mirrors.ends (blockCase_ends n c _ (.inl hp)) fun i =>
          blockCase_ends (m i) (cs i) _ (hq i ▸ (S.next i).after_eq)).mono id ?_
        rintro _ _ f g ⟨rfl, rfl, hf, hg⟩
        refine .grown S hM (fun i => ?_) hf hg
        change Node.Absorbs _ (.branch default [(c.shape, .list default _, true)] none)
          (.branch default [((cs i).shape, .list default (Node.shapes (nss i)), true)] none)
        rw [hc i, hns i]
        exact .only_block
    · refine .next (.part (.loosen (ih.statement m _ _ hr₄))) ?_ ?_
      · intro b bs p₅ q₅ hb hr₅
        exact ih.otherCases hc hb hr₅
      · intro S b bs p₅ q₅ hM hb hp hq
        refine .bind (.part <| .ends (moreCases_ends n hp) fun i => moreCases_ends (m i) (hq i))
          fun ds dss p₆ q₆ h => ?_
        obtain ⟨rfl, rfl, hp, hq⟩ := h
        refine .ret (.grown S hM (fun i => ?_) hp hq)
        change Node.Absorbs _ (.branch default [(c.shape, b.shape, false)] none)
          (.branch default [((cs i).shape, (bs i).shape, false)] none)
        rw [hc i]
        exact .only_case (hb i)
  · refine .of_error (by simp) ?_
    simp only [he.here.current]
    exact Errs.bind (.statement n he.here)

theorem moreCases_succ (hr : Beside M p.feed fun i => (q i).feed) :
    Mirrors (M = none) (BranchCases M) (Parse.moreCases (n + 1))
      (fun i => Parse.moreCases (m i + 1)) p q := by
  simp only [Parse.moreCases]
  refine .ifKeyword hr (fun _ _ => .part (ih.cases m .elifKw _ _ hr)) ?_
  refine .next (.part (ih.fallback m _ _ hr)) ?_ ?_
  · intro o os p₁ q₁ h hr₁
    exact .ret (.same (fun i => congrArg (Node.branch default []) (h i)) hr₁)
  · intro S o os p₁ q₁ hM h hp hq
    refine .ret (.grown S hM (fun i => ?_) hp hq)
    obtain ⟨b, b', ho, ho', ha⟩ := h i
    change Node.Absorbs _ (.branch default [] (Node.bodyShape o))
      (.branch default [] (Node.bodyShape (os i)))
    rw [ho, ho']
    exact .fallback ha

theorem closedBlock {Q : β → (ι → β) → Feed → (ι → Feed) → Prop} {k : Node → β}
    {l : ι → Node → β} (hr : Beside M p.feed fun i => (q i).feed)
    (hk : ∀ b (bs : ι → Node) f g, (∀ i, (bs i).shape = b.shape) → Beside M f g →
      Q (k b) (fun i => l i (bs i)) f g) :
    Mirrors (M = none) Q
      (do
        let body ← part (Parse.statements n)
        keyword .endKw
        return k body)
      (fun i => do
        let body ← part (Parse.statements (m i))
        keyword .endKw
        return l i body) p q := by
  refine .bind (.part (ih.statements m _ _ hr)) ?_
  rintro _ _ p₁ q₁ ⟨s, ns, ss, nss, rfl, rfl, h⟩
  cases h with
  | same hns hr₁ _ =>
    refine .keyword hr₁ fun p₂ q₂ hr₂ => .ret (hk _ (fun i => .list (ss i) (nss i)) _ _ ?_ hr₂)
    exact fun i => congrArg (Node.list default) (hns i)
  | grown S hM hns hp hq => exact .of_error (by simp [hM]) (Errs.bind (.keyword hp))
  | absorbed S hM hns hp hq => exact .of_error (by simp [hM]) (Errs.bind (.keyword hp))

theorem fallback_succ (hr : Beside M p.feed fun i => (q i).feed) :
    Mirrors (M = none) (Fallback M) (Parse.fallback (n + 1)) (fun i => Parse.fallback (m i + 1))
      p q := by
  simp only [Parse.fallback]
  refine .ifKeyword hr (fun _ hc => .advance hc fun p₁ q₁ hr₁ => .lexeme ?_)
    (.ret (.same (fun _ => rfl) hr))
  obtain hc | ⟨S, rfl, he⟩ := hr₁.view
  · simp only [hc.lexeme]
    split
    · refine .advance hc fun p₂ q₂ hr₂ => ih.closedBlock hr₂ fun b bs f g hb hr₃ => ?_
      exact .same (fun i => congrArg (fun n => some (n, true)) (hb i)) hr₃
    · refine .next (.part (.loosen (ih.statement m _ _ hr₁))) ?_ ?_
      · intro b bs p₂ q₂ hb hr₂
        exact .ret (.same (fun i => congrArg (fun n => some (n, false)) (hb i)) hr₂)
      · intro S b bs p₂ q₂ hM hb hp hq
        exact .ret (.grown S hM (fun i => ⟨_, _, rfl, rfl, hb i⟩) hp hq)
  · refine .of_error (by simp) ?_
    simp only [he.here.current]
    exact Errs.bind (.statement n he.here)

theorem loopBody_succ (hr : Beside M p.feed fun i => (q i).feed) :
    Mirrors (M = none) (Body M) (Parse.loopBody (n + 1)) (fun i => Parse.loopBody (m i + 1))
      p q := by
  simp only [Parse.loopBody]
  refine .keyword hr fun p₁ q₁ hr₁ => .lexeme ?_
  obtain hc | ⟨S, rfl, he⟩ := hr₁.view
  · simp only [hc.lexeme]
    split
    · refine .advance hc fun p₂ q₂ hr₂ => ih.closedBlock hr₂ fun b bs f g hb hr₃ => ?_
      exact .same (fun i => ⟨hb i, rfl⟩) hr₃
    · refine .next (.part (.loosen (ih.statement m _ _ hr₁))) ?_ ?_
      · intro b bs p₂ q₂ hb hr₂
        exact .ret (.same (fun i => ⟨hb i, rfl⟩) hr₂)
      · intro S b bs p₂ q₂ hM hb hp hq
        exact .ret (.grown S hM (fun i => ⟨rfl, rfl, hb i⟩) hp hq)
  · refine .of_error (by simp) ?_
    simp only [he.here.current]
    exact Errs.bind (.statement n he.here)

theorem whileLoop_succ (hr : Beside M p.feed fun i => (q i).feed) :
    Mirrors (M = none) (Tree M) (Parse.whileLoop (n + 1)) (fun i => Parse.whileLoop (m i + 1))
      p q := by
  simp only [Parse.whileLoop]
  refine .keyword hr fun p₁ q₁ hr₁ => .next (.part (.loosen (ih.expression m _ _ hr₁))) ?_ ?_
  · intro c cs p₂ q₂ hc hr₂
    refine .next (ih.loopBody m p₂ q₂ hr₂) ?_ ?_
    · intro b bs p₃ q₃ hb hr₃
      refine .ret (.same (fun i => ?_) hr₃)
      rw [Node.shape, Node.shape, hc i, (hb i).1, (hb i).2]
    · intro S b bs p₃ q₃ hM hb hp hq
      refine .ret (.grown S hM (fun i => ?_) hp hq)
      obtain ⟨hk, hk', ha⟩ := hb i
      rw [Node.shape, Node.shape, hc i, hk, hk']
      exact .whileLoop ha
  · intro S c cs p₂ q₂ hM _ hp _
    exact .of_error (by simp [hM]) (Errs.bind (.loopBody n hp))

theorem loopStep (hr : Beside M p.feed fun i => (q i).feed) :
    Mirrors (M = none) (OptionalTree M) (Parse.loopStep (Parse.expression n))
      (fun i => Parse.loopStep (Parse.expression (m i))) p q := by
  refine .ifKeyword hr (fun _ hc => .advance hc fun p₁ q₁ hr₁ => ?_)
    (.ret (.same (fun _ => rfl) hr))
  refine .next (.part (.loosen (ih.expression m _ _ hr₁))) ?_ ?_
  · intro a as p₂ q₂ ha hr₂
    exact .ret (.same (fun i => congrArg some (ha i)) hr₂)
  · intro S a as p₂ q₂ hM ha hp hq
    exact .ret (.grown S hM (fun i => ⟨_, _, rfl, rfl, ha i⟩) hp hq)

theorem forLoop_succ (hr : Beside M p.feed fun i => (q i).feed) :
    Mirrors (M = none) (Tree M) (Parse.forLoop (n + 1)) (fun i => Parse.forLoop (m i + 1)) p q := by
  simp only [Parse.forLoop]
  refine .keyword hr fun p₁ q₁ hr₁ => .optionalVar hr₁ fun p₂ q₂ hr₂ => ?_
  refine .identifier hr₂ fun name at_ ats p₃ q₃ hr₃ => .assignSign hr₃ fun p₄ q₄ hr₄ => ?_
  refine .next (.part (.loosen (ih.expression m _ _ hr₄))) ?_ ?_
  rotate_left
  · intro S x xs p₅ q₅ _ _ hp hq
    exact .keyword_end hp hq
  intro x xs p₅ q₅ hx hr₅
  refine .keyword hr₅ fun p₆ q₆ hr₆ => .next (.part (.loosen (ih.expression m _ _ hr₆))) ?_ ?_
  rotate_left
  · intro S y ys p₇ q₇ hM _ hp _
    exact .of_error (by simp [hM]) ((loopStep_ends hp).errs fun _ hq => .bind (.loopBody n hq))
  intro y ys p₇ q₇ hy hr₇
  refine .next (ih.loopStep hr₇) ?_ ?_
  rotate_left
  · intro S z zs p₈ q₈ hM _ hp _
    exact .of_error (by simp [hM]) (Errs.bind (.loopBody n hp))
  intro z zs p₈ q₈ hz hr₈
  refine .next (ih.loopBody m p₈ q₈ hr₈) ?_ ?_
  · intro b bs p₉ q₉ hb hr₉
    refine .ret (.same (fun i => ?_) hr₉)
    rw [Node.shape, Node.shape, hx i, hy i, hz i, (hb i).1, (hb i).2]
  · intro S b bs p₉ q₉ hM hb hp hq
    refine .ret (.grown S hM (fun i => ?_) hp hq)
    obtain ⟨hk, hk', ha⟩ := hb i
    rw [Node.shape, Node.shape, hx i, hy i, hz i, hk, hk']
    exact .forLoop ha

theorem function_succ (hr : Beside M p.feed fun i => (q i).feed) :
    Mirrors (M = none) (Tree M) (Parse.function (n + 1)) (fun i => Parse.function (m i + 1))
      p q := by
  simp only [Parse.function]
  refine .keyword hr fun p₁ q₁ hr₁ => .functionName hr₁ fun o os p₂ q₂ ho hr₂ => ?_
  have hnamed : ∀ i, (os i).isSome = o.isSome := fun i => by
    simpa using congrArg Option.isSome (ho i)
  simp only [hnamed]
  refine .openParams hr₂ fun p₃ q₃ hr₃ => .bind (.params n m hr₃) fun ps pss p₄ q₄ h => .lexeme ?_
  obtain ⟨hps, hr₄⟩ := h
  have hsame (k : Bool) (b : Node) (bs : ι → Node) (hb : ∀ i, (bs i).shape = b.shape) (i : ι) :
      (functionNode (os i) (pss i) (bs i) k).shape = (functionNode o ps b k).shape := by
    change Node.function default ((os i).map (·.1)) ((pss i).map (·.1)) (bs i).shape k =
      .function default (o.map (·.1)) (ps.map (·.1)) b.shape k
    rw [ho i, hps i, hb i]
  obtain hc | ⟨S, rfl, he⟩ := hr₄.view
  · simp only [hc.lexeme]
    split
    · refine .advance hc fun p₅ q₅ hr₅ => .next (.part (.loosen (ih.expression m _ _ hr₅))) ?_ ?_
      · intro b bs p₆ q₆ hb hr₆
        exact .ret (.same (hsame true b bs hb) hr₆)
      · intro S b bs p₆ q₆ hM hb hp hq
        refine .ret (.grown S hM (fun i => ?_) hp hq)
        change Node.Absorbs _ (.function default (o.map (·.1)) (ps.map (·.1)) b.shape true)
          (.function default ((os i).map (·.1)) ((pss i).map (·.1)) (bs i).shape true)
        rw [ho i, hps i]
        exact .arrow (hb i)
    · refine .advance hc fun p₅ q₅ hr₅ => ih.closedBlock hr₅ fun b bs f g hb hr₆ => ?_
      exact .same (hsame false b bs hb) hr₆
    · exact .reject
  · refine .of_error (by simp) ?_
    simp only [he.here.current]
    exact Errs.reject

omit ih in
theorem of_succ {α : Type} {s : Prop} {P : α → (ι → α) → Feed → (ι → Feed) → Prop} {x : Parse α}
    {y : ι → Nat → Parse α} (hy : ∀ i, y i 0 = exhausted)
    (h : ∀ m : ι → Nat, Mirrors s P x (fun i => y i (m i + 1)) p q) (m : ι → Nat) :
    Mirrors s P x (fun i => y i (m i)) p q := by
  obtain ⟨i, hi⟩ | ⟨m, rfl⟩ := zero_or_succ m
  · exact .zero_right i (by simp only [hi, hy])
  · exact h m

theorem succ : Mirrored M (n + 1) where
  statements m _ _ hr := of_succ (fun _ => rfl) (fun _ => ih.statements_succ hr) m
  moreStatements m _ _ hr := of_succ (fun _ => rfl) (fun _ => ih.moreStatements_succ hr) m
  statement m _ _ hr := of_succ (fun _ => rfl) (fun _ => ih.statement_succ hr) m
  expression m _ _ hr := of_succ (fun _ => rfl) (fun _ => ih.expression_succ hr) m
  negation m _ _ hr := of_succ (fun _ => rfl) (fun _ => ih.negation_succ hr) m
  chain m l _ _ hr :=
    of_succ (y := fun _ n => Parse.chain n l) (fun _ => rfl) (fun _ => ih.chain_succ l hr) m
  moreOperands m l _ as _ _ ha hr :=
    of_succ (y := fun i n => Parse.moreOperands n l (as i)) (fun _ => rfl)
      (fun _ => ih.moreOperands_succ l ha hr) m
  operand m l _ _ hr :=
    of_succ (y := fun _ n => Parse.operand n l) (fun _ => rfl) (fun _ => ih.operand_succ l hr) m
  factor m _ _ hr := of_succ (fun _ => rfl) (fun _ => ih.factor_succ hr) m
  call m _ _ hr := of_succ (fun _ => rfl) (fun _ => ih.call_succ hr) m
  moreItems m _ _ hr := of_succ (fun _ => rfl) (fun _ => ih.moreItems_succ hr) m
  atom m _ _ hr := of_succ (fun _ => rfl) (fun _ => ih.atom_succ hr) m
  listLiteral m _ _ hr := of_succ (fun _ => rfl) (fun _ => ih.listLiteral_succ hr) m
  branch m _ _ hr := of_succ (fun _ => rfl) (fun _ => ih.branch_succ hr) m
  cases m w _ _ hr :=
    of_succ (y := fun _ n => Parse.cases n w) (fun _ => rfl) (fun _ => ih.cases_succ w hr) m
  moreCases m _ _ hr := of_succ (fun _ => rfl) (fun _ => ih.moreCases_succ hr) m
  fallback m _ _ hr := of_succ (fun _ => rfl) (fun _ => ih.fallback_succ hr) m
  loopBody m _ _ hr := of_succ (fun _ => rfl) (fun _ => ih.loopBody_succ hr) m
  forLoop m _ _ hr := of_succ (fun _ => rfl) (fun _ => ih.forLoop_succ hr) m
  whileLoop m _ _ hr := of_succ (fun _ => rfl) (fun _ => ih.whileLoop_succ hr) m
  function m _ _ hr := of_succ (fun _ => rfl) (fun _ => ih.function_succ hr) m

end Mirrored

theorem mirrored (M : Option (Seam ι)) : ∀ n, Mirrored M n
  | 0 => .zero
  | n + 1 => (mirrored M n).succ

end Think.Parse
