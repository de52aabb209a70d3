import Think.Proofs.Parse.Place

/-! # The end of the text

What productions do where no statement can start: those that need one fail, and those that only
look for more of something find none.
-/

namespace Think

namespace Lexeme

def opens : Lexeme → Bool
  | keyword .ifKw | keyword .forKw | keyword .whileKw | keyword .funcKw => true
  | _ => false

def starts : Lexeme → Bool
  | assign | equal => false
  | l => !l.endsBlock

end Lexeme

namespace Feed

inductive Stuck : Feed → Prop
  | here {f : Feed} : f.current.lexeme.starts = false → Stuck f
  | sign {f : Feed} : f.current.lexeme = .plus → Stuck f.advance → Stuck f

theorem Stuck.elim {f : Feed} {l : Lexeme} (h : f.Stuck) (hl : f.current.lexeme = l)
    (hs : l.starts = true) (hp : l ≠ .plus) : False := by
  cases h with
  | here h => simp [hl, hs] at h
  | sign h => exact hp (hl.symm.trans h)

theorem stuck_of_endsBlock {f : Feed} (h : f.current.lexeme.endsBlock) : f.Stuck := by
  refine .here ?_
  unfold Lexeme.starts
  split
  · rfl
  · rfl
  · simpa using h

/-- Nothing is left but the end of the text. -/
def AtEnd (f : Feed) : Prop := f.lexemes = [.endOfText]

theorem AtEnd.current {f : Feed} (h : f.AtEnd) : f.current.lexeme = .endOfText :=
  current_of_lexemes h

theorem AtEnd.breaks {f : Feed} (h : f.AtEnd) : f.breaks = 0 :=
  (breaks_of_lexemes (k := 0) h (by simp)).1

end Feed

namespace Parse

variable {α β : Type}

def form (n : Nat) : Keyword → Parse Node
  | .ifKw => branch n
  | .forKw => forLoop n
  | .whileKw => whileLoop n
  | .funcKw => function n
  | _ => exhausted

theorem atom_form {n : Nat} {p : Progress} {w : Keyword}
    (hw : p.feed.current.lexeme = .keyword w) (ho : (Lexeme.keyword w).opens) :
    atom (n + 1) p = part (form n w) p := by
  have hcurrent : current p = (.ok p.feed.current, p) := rfl
  rw [atom, bind_apply, hcurrent]
  simp only [hw]
  unfold Lexeme.opens at ho
  split at ho
  case h_5 => cases ho
  all_goals next h => cases h; rfl

def Errs (x : Parse α) (p : Progress) : Prop := ∃ e, (x p).1 = .error e

namespace Errs

variable {x : Parse α} {k : α → Parse β} {p : Progress}

theorem bind (h : Errs x p) : Errs (x >>= k) p := by
  obtain ⟨e, h⟩ := h
  refine ⟨e, ?_⟩
  rw [bind_apply]
  rcases hx : x p with ⟨r, q⟩
  rw [hx] at h
  cases h
  rfl

theorem part (h : Errs x (.start p.feed)) : Errs (part x) p := h

theorem partOr {details : String} (h : Errs x (.start p.feed)) : Errs (partOr details x) p := by
  obtain ⟨e, h⟩ := h
  rcases hx : x (.start p.feed) with ⟨r, q⟩
  rw [hx] at h
  cases h
  unfold Errs Parse.partOr
  rw [hx]
  cases e with
  | invalid e =>
    dsimp only
    split
    · exact ⟨_, rfl⟩
    · exact ⟨_, rfl⟩
  | exhausted => exact ⟨_, rfl⟩

theorem reject {details : String} : Errs (reject details : Parse α) p := ⟨_, rfl⟩

theorem exhausted : Errs (exhausted : Parse α) p := ⟨_, rfl⟩

theorem lexeme {k : Lexeme → Parse β} (h : Errs (k p.feed.current.lexeme) p) :
    Errs (lexeme >>= k) p := h

theorem current {k : Token → Parse β} (h : Errs (k p.feed.current) p) :
    Errs (current >>= k) p := h

theorem advance {k : Unit → Parse β} (h : Errs (k ()) (advance p).2) :
    Errs (Parse.advance >>= k) p := h

theorem newlines {k : Nat → Parse β} (h : Errs (k p.feed.breaks) (newlines p).2) :
    Errs (Parse.newlines >>= k) p := h

theorem keyword {w : Keyword} (h : p.feed.AtEnd) : Errs (keyword w) p := by
  apply Errs.lexeme
  simp only [h.current]
  exact .reject

end Errs

structure Blocked (n : Nat) : Prop where
  statement : ∀ p, p.feed.Stuck → Errs (statement n) p
  expression : ∀ p, p.feed.Stuck → Errs (expression n) p
  negation : ∀ p, p.feed.Stuck → Errs (negation n) p
  chain : ∀ p l, p.feed.Stuck → Errs (chain n l) p
  operand : ∀ p l, p.feed.Stuck → Errs (operand n l) p
  factor : ∀ p, p.feed.Stuck → Errs (factor n) p
  call : ∀ p, p.feed.Stuck → Errs (call n) p
  atom : ∀ p, p.feed.Stuck → Errs (atom n) p

namespace Blocked

theorem zero : Blocked 0 := by
  constructor
  all_goals intros; exact .exhausted

theorem succ {n : Nat} (ih : Blocked n) : Blocked (n + 1) where
  statement p h := by
    rw [Parse.statement]
    apply Errs.current
    apply Errs.lexeme
    split
    case h_5 => exact .partOr (ih.expression _ h)
    all_goals next hl => exact (h.elim hl rfl (by simp)).elim
  expression p h := by
    rw [Parse.expression]
    apply Errs.lexeme
    split
    case h_3 => exact .partOr (ih.chain _ .logic h)
    all_goals next hl => exact (h.elim hl rfl (by simp)).elim
  negation p h := by
    rw [Parse.negation]
    apply Errs.current
    split
    case h_2 => exact .partOr (ih.chain _ .comparison h)
    all_goals next hl => exact (h.elim hl rfl (by simp)).elim
  chain p l h := by
    rw [Parse.chain]
    exact .bind (.part (ih.operand _ l h))
  operand p l h := by
    cases l <;> rw [Parse.operand]
    case logic => exact ih.negation p h
    case product => exact ih.factor p h
    case power => exact ih.call p h
    all_goals exact ih.chain p _ h
  factor p h := by
    rw [Parse.factor]
    apply Errs.current
    split
    case h_1 hl =>
      cases h with
      | here h => simp [hl, Lexeme.starts, Lexeme.endsBlock] at h
      | sign _ h => exact .advance (.bind (.part (ih.factor _ h)))
    case h_3 => exact ih.chain p .power h
    all_goals next hl => exact (h.elim hl rfl (by simp)).elim
  call p h := by
    rw [Parse.call]
    exact .bind (.part (ih.atom _ h))
  atom p h := by
    rw [Parse.atom]
    apply Errs.current
    split
    case h_11 => exact .reject
    all_goals next hl => exact (h.elim hl rfl (by simp)).elim

end Blocked

theorem blocked : ∀ n, Blocked n
  | 0 => .zero
  | n + 1 => (blocked n).succ

theorem Errs.statement {p : Progress} (n : Nat) (h : p.feed.AtEnd) :
    Errs (Parse.part (Parse.statement n)) p := by
  apply Errs.part
  apply (blocked n).statement
  apply Feed.stuck_of_endsBlock
  change p.feed.current.lexeme.endsBlock
  rw [h.current]
  rfl

theorem Errs.loopBody {p : Progress} (n : Nat) (h : p.feed.AtEnd) :
    Errs (Parse.loopBody n) p := by
  cases n with
  | zero => exact .exhausted
  | succ n =>
    rw [Parse.loopBody]
    exact .bind (.keyword h)

def EndsWith (x : Parse α) (a : α) (p : Progress) : Prop :=
  (∃ q, x p = (.error .exhausted, q)) ∨ ∃ q, x p = (.ok a, q) ∧ q.feed.AtEnd

section EndsWith

variable {p : Progress}

theorem EndsWith.of_reads {x : Parse α} {a : α} {ls : List Lexeme}
    (hx : Reads x ls [.endOfText] (· = a)) (hp : p.feed.lexemes = ls) : EndsWith x a p := by
  obtain ⟨_, q, he, hq, rfl⟩ := hx p hp
  exact .inr ⟨q, he, hq⟩

theorem EndsWith.bind {x : Parse α} {k : α → Parse β} {a : α} {b : β} (hx : EndsWith x a p)
    (hk : ∀ q, q.feed.AtEnd → EndsWith (k a) b q) : EndsWith (x >>= k) b p := by
  obtain ⟨q, hq⟩ | ⟨q, hq, hend⟩ := hx
  · exact .inl ⟨q, by rw [bind_apply, hq]⟩
  · unfold EndsWith
    rw [bind_apply, hq]
    exact hk q hend

theorem EndsWith.errs {x : Parse α} {k : α → Parse β} {a : α} (hx : EndsWith x a p)
    (hk : ∀ q, q.feed.AtEnd → Errs (k a) q) : Errs (x >>= k) p := by
  unfold Errs
  rw [bind_apply]
  obtain ⟨q, hq⟩ | ⟨q, hq, hend⟩ := hx
  · rw [hq]
    exact ⟨_, rfl⟩
  · rw [hq]
    exact hk q hend

theorem EndsWith.part {x : Parse α} {a : α} (hx : EndsWith x a (.start p.feed)) :
    EndsWith (part x) a p := by
  obtain ⟨q, hq⟩ | ⟨q, hq, hend⟩ := hx
  · exact .inl ⟨Progress.keep p q, by rw [Parse.part, hq]⟩
  · exact .inr ⟨Progress.keep p q, by rw [Parse.part, hq], hend⟩

theorem EndsWith.ifNotKeyword {x y : Parse α} {a : α} {w : Keyword} (hp : p.feed.AtEnd)
    (hy : EndsWith y a p) : EndsWith (do if ← atKeyword w then x else y) a p := by
  have hlexeme : Parse.lexeme p = (.ok .endOfText, p) :=
    congrArg (fun l => (Except.ok l, p)) hp.current
  have hnot : atKeyword w p = (.ok false, p) := by
    rw [atKeyword, bind_apply, hlexeme]
    rfl
  unfold EndsWith
  rw [bind_apply, hnot]
  exact hy

theorem EndsWith.ret {a : α} (hp : p.feed.AtEnd) : EndsWith (pure a) a p := .inr ⟨p, rfl, hp⟩

theorem moreOperands_ends (n : Nat) (l : Level) (a : Node) (h : p.feed.AtEnd) :
    EndsWith (moreOperands n l a) a p := by
  cases n with
  | zero => exact .inl ⟨_, rfl⟩
  | succ n =>
    refine .of_reads ?_ h
    have hop : l.op? .endOfText = none := by cases l <;> rfl
    rw [moreOperands_succ]
    apply Reads.lexeme
    rw [hop]
    exact .ret rfl

theorem moreItems_ends (n : Nat) (h : p.feed.AtEnd) : EndsWith (moreItems n) [] p := by
  cases n with
  | zero => exact .inl ⟨_, rfl⟩
  | succ n =>
    refine .of_reads ?_ h
    rw [moreItems]
    exact .lexeme (.ret rfl)

/-- Behind line breaks that end a block there is no statement. -/
theorem moreStatements_blocked (n : Nat)
    (h : (Nat.repeat Feed.advance p.feed.breaks p.feed).current.lexeme.endsBlock) :
    (∃ q, moreStatements n p = (.error .exhausted, q)) ∨
      ∃ q, moreStatements n p = (.ok [], q) ∧
        q.feed = Nat.repeat Feed.advance p.feed.breaks p.feed := by
  cases n with
  | zero => exact .inl ⟨_, rfl⟩
  | succ n =>
    rw [moreStatements]
    change (∃ q, (if p.feed.breaks = 0 then _ else _ : Parse (List Node)) (newlines p).2 = _) ∨
      ∃ q, (if p.feed.breaks = 0 then _ else _ : Parse (List Node)) (newlines p).2 = _ ∧ _
    split
    · exact .inr ⟨_, rfl, rfl⟩
    · obtain ⟨e, hs⟩ :=
        (blocked n).statement (.start (newlines p).2.feed) (Feed.stuck_of_endsBlock h)
      simp only [bind_apply, attempt]
      rcases hx : statement n (.start (newlines p).2.feed) with ⟨r, q⟩
      rw [hx] at hs
      cases hs
      cases e with
      | invalid e => exact .inr ⟨_, rfl, rfl⟩
      | exhausted => exact .inl ⟨_, rfl⟩

/-- Behind the last line breaks of a text there is no statement. -/
theorem moreStatements_ends (n : Nat)
    (h : (Nat.repeat Feed.advance p.feed.breaks p.feed).AtEnd) :
    EndsWith (moreStatements n) [] p := by
  obtain hq | ⟨q, hq, hf⟩ := moreStatements_blocked n (by rw [h.current]; rfl)
  · exact .inl hq
  · exact .inr ⟨q, hq, hf ▸ h⟩

theorem moreStatements_atEnd (n : Nat) (h : p.feed.AtEnd) : EndsWith (moreStatements n) [] p := by
  apply moreStatements_ends
  rw [h.breaks]
  exact h

theorem moreCases_ends (n : Nat) (h : p.feed.AtEnd) : EndsWith (moreCases n) ([], none) p := by
  cases n with
  | zero => exact .inl ⟨_, rfl⟩
  | succ n =>
    have hfallback (q : Progress) (hq : q.feed.AtEnd) : EndsWith (fallback n) none q := by
      cases n with
      | zero => exact .inl ⟨_, rfl⟩
      | succ n =>
        rw [fallback]
        exact .ifNotKeyword hq (.ret hq)
    rw [moreCases]
    refine .ifNotKeyword h (.bind (.part (hfallback _ h)) fun q hq => ?_)
    exact .ret hq

theorem loopStep_ends {x : Parse Node} (h : p.feed.AtEnd) : EndsWith (loopStep x) none p :=
  .ifNotKeyword h (.ret h)

/-- Behind the statements of a case there may only be an `end`. -/
theorem blockCase_ends (n : Nat) (c b : Node)
    (h : p.feed.lexemes = [.endOfText] ∨ p.feed.lexemes = [.keyword .endKw, .endOfText]) :
    EndsWith
      (do
        if ← atKeyword .endKw then
          advance
          return ([(c, b, true)], none)
        else
          let (others, fallback) ← part (moreCases n)
          return ((c, b, true) :: others, fallback))
      (([(c, b, true)], none) : Cases) p := by
  obtain h | h := h
  · refine .ifNotKeyword h (.bind (.part (moreCases_ends n h)) fun q hq => ?_)
    exact .ret hq
  · exact .of_reads (.ifKeyword (.pass (by simp) (.ret rfl))) h

end EndsWith

end Parse
end Think
