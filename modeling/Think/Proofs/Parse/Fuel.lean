import Think.Proofs.Parse.Yield

/-! # Enough fuel

Productions that call each other without passing a token do so along a fixed order of ranks, and a
token is passed before any rank is met again. So fuel of 24 for each token that is left always
covers a production of rank at most 23: it never runs out, and more of it changes nothing.
-/

namespace Think.Parse

variable {α β : Type} {x y : Parse α} {k l : α → Parse β} {p q : Progress} {n m r : Nat}

/-- Both productions end in the same way, not for lack of fuel, and leave a part of the feed. -/
structure Agrees (x y : Parse α) (p : Progress) : Prop where
  eq : x p = y p
  settled : (y p).1 ≠ .error .exhausted
  left : ∀ a q, y p = (.ok a, q) → q.feed.Sealed ∧ q.feed.rest.length ≤ p.feed.rest.length

namespace Agrees

theorem bind_of_left (hx : Agrees x y p)
    (hk : ∀ a q, y p = (.ok a, q) → Agrees (k a) (l a) q) : Agrees (x >>= k) (y >>= l) p := by
  obtain ⟨he, hs, hleft⟩ := hx
  rcases hy : y p with ⟨r | a, q⟩
  · refine ⟨?_, ?_, fun b q' h => ?_⟩
    · rw [bind_apply, bind_apply, he, hy]
    · rw [bind_apply, hy]
      intro h
      cases h
      exact hs (by rw [hy])
    · rw [bind_apply, hy] at h
      cases h
  · have hle := (hleft a q hy).2
    have ha := hk a q hy
    refine ⟨?_, ?_, fun b q' h => ?_⟩
    · rw [bind_apply, bind_apply, he, hy]
      exact ha.eq
    · rw [bind_apply, hy]
      exact ha.settled
    · rw [bind_apply, hy] at h
      obtain ⟨hq, hle'⟩ := ha.left b q' h
      exact ⟨hq, Nat.le_trans hle' hle⟩

theorem bind (hx : Agrees x y p)
    (hk : ∀ a q, q.feed.Sealed → q.feed.rest.length ≤ p.feed.rest.length → Agrees (k a) (l a) q) :
    Agrees (x >>= k) (y >>= l) p := by
  apply hx.bind_of_left
  intro a q h
  obtain ⟨hq, hle⟩ := hx.left a q h
  exact hk a q hq hle

theorem of_settled (hx : (x p).1 ≠ .error .exhausted)
    (hleft : ∀ a q, x p = (.ok a, q) → q.feed.Sealed ∧ q.feed.rest.length ≤ p.feed.rest.length) :
    Agrees x x p :=
  ⟨rfl, hx, hleft⟩

theorem ret (a : α) (hp : p.feed.Sealed) : Agrees (pure a) (pure a) p := by
  refine of_settled (fun h => ?_) fun _ _ h => ?_
  · cases h
  · cases h
    exact ⟨hp, Nat.le_refl _⟩

theorem reject {details : String} :
    Agrees (Parse.reject details : Parse α) (Parse.reject details) p := by
  refine of_settled (fun h => ?_) fun _ _ h => ?_ <;> cases h

theorem part (h : Agrees x y (.start p.feed)) : Agrees (part x) (part y) p where
  eq := by rw [Parse.part, Parse.part, h.eq]
  settled := h.settled
  left a q hq := by
    rw [Parse.part] at hq
    generalize hy : y (.start p.feed) = s at hq
    obtain ⟨s, q'⟩ := s
    cases hq
    exact h.left a q' hy

theorem partOr {details : String} (h : Agrees x y (.start p.feed)) :
    Agrees (partOr details x) (partOr details y) p := by
  obtain ⟨he, hs, hleft⟩ := h
  refine ⟨by rw [Parse.partOr, Parse.partOr, he], ?_, fun a q hq => ?_⟩
  all_goals rcases hy : y (.start p.feed) with ⟨(e | _) | a', q'⟩
  · rw [Parse.partOr, hy]
    dsimp only
    split <;> rintro ⟨⟩
  · exact (hs (by rw [hy])).elim
  · rw [Parse.partOr, hy]
    rintro ⟨⟩
  · rw [Parse.partOr, hy] at hq
    dsimp only at hq
    split at hq <;> cases hq
  · exact (hs (by rw [hy])).elim
  · rw [Parse.partOr, hy] at hq
    cases hq
    exact hleft _ q' hy

theorem attempt (hp : p.feed.Sealed) (h : Agrees x y (.start p.feed)) :
    Agrees (attempt x) (attempt y) p := by
  obtain ⟨he, hs, hleft⟩ := h
  refine ⟨by rw [Parse.attempt, Parse.attempt, he], ?_, fun a q hq => ?_⟩
  all_goals rcases hy : y (.start p.feed) with ⟨(e | _) | a', q'⟩
  · rw [Parse.attempt, hy]
    rintro ⟨⟩
  · exact (hs (by rw [hy])).elim
  · rw [Parse.attempt, hy]
    rintro ⟨⟩
  · rw [Parse.attempt, hy] at hq
    cases hq
    exact ⟨hp, Nat.le_refl _⟩
  · exact (hs (by rw [hy])).elim
  · rw [Parse.attempt, hy] at hq
    cases hq
    exact hleft a' q' hy

theorem lexeme {k l : Lexeme → Parse β}
    (h : Agrees (k p.feed.current.lexeme) (l p.feed.current.lexeme) p) :
    Agrees (Parse.lexeme >>= k) (Parse.lexeme >>= l) p :=
  ⟨h.eq, h.settled, h.left⟩

theorem current {k l : Token → Parse β} (h : Agrees (k p.feed.current) (l p.feed.current) p) :
    Agrees (Parse.current >>= k) (Parse.current >>= l) p :=
  ⟨h.eq, h.settled, h.left⟩

theorem advance (hp : p.feed.Sealed) : Agrees advance advance p := by
  refine of_settled (fun h => ?_) fun _ _ h => ?_ <;> cases h
  obtain ⟨⟨t, rest⟩, _⟩ := p
  cases rest with
  | nil => exact ⟨hp, Nat.le_refl _⟩
  | cons u rest => exact ⟨hp.of_append (u := [t]) rfl, Nat.le_succ _⟩

theorem keyword {w : Keyword} (hp : p.feed.Sealed) : Agrees (keyword w) (keyword w) p := by
  apply Agrees.lexeme
  split
  · split
    · exact .advance hp
    · exact .reject
  · exact .reject

theorem optionalVar (hp : p.feed.Sealed) : Agrees optionalVar optionalVar p := by
  apply Agrees.lexeme
  split
  · exact .advance hp
  · exact .ret _ hp

theorem identifier {details : String} (hp : p.feed.Sealed) :
    Agrees (identifier details) (identifier details) p := by
  apply Agrees.current
  split
  · exact (advance hp).bind fun _ _ hq _ => .ret _ hq
  · exact .reject

theorem assignSign (hp : p.feed.Sealed) : Agrees assignSign assignSign p := by
  apply Agrees.lexeme
  split
  · exact .advance hp
  · exact .reject

theorem openParams {named : Bool} (hp : p.feed.Sealed) :
    Agrees (openParams named) (openParams named) p := by
  apply Agrees.lexeme
  split
  · exact .advance hp
  · exact .reject

theorem functionName (hp : p.feed.Sealed) : Agrees functionName functionName p := by
  apply Agrees.lexeme
  split
  · rw [map_eq_pure_bind]
    exact (identifier hp).bind fun _ _ hq _ => .ret _ hq
  · exact .ret _ hp

theorem ifKeyword {w : Keyword} {x' y' : Parse α}
    (hx : p.feed.current.lexeme = .keyword w → Agrees x x' p) (hy : Agrees y y' p) :
    Agrees (do if ← atKeyword w then x else y) (do if ← atKeyword w then x' else y') p := by
  rw [atKeyword, bind_assoc, bind_assoc]
  apply Agrees.lexeme
  split
  · next v hv =>
    rw [pure_bind, pure_bind]
    split
    · next hw => exact hx (by simpa [hv] using hw)
    · exact hy
  · rw [pure_bind, pure_bind]
    exact hy

theorem newlines (hp : p.feed.Sealed) : Agrees newlines newlines p := by
  refine of_settled (fun h => ?_) fun _ _ h => ?_ <;> cases h
  have hb := hp.passes_breaks.1
  exact ⟨hp.passes hb, Nat.le.intro hb.length⟩

theorem step {φ : α → List Lexeme → Prop} (hp : p.feed.Sealed) (hx : Agrees x x p)
    (ha : Accounts p.feed x φ)
    (hk : ∀ a ls q, φ a ls → q.feed.Sealed → q.feed.rest.length + ls.length = p.feed.rest.length →
      Agrees (k a) (l a) q) : Agrees (x >>= k) (x >>= l) p := by
  apply hx.bind_of_left
  intro a q h
  obtain ⟨ls, hpass, hφ⟩ := ha hp ⟨p, q, rfl, rfl, h⟩
  exact hk a ls q hφ (hp.passes hpass) hpass.length

theorem pass {φ : α → List Lexeme → Prop} (hp : p.feed.Sealed) (hx : Agrees x x p)
    (ha : Accounts p.feed x φ) (hφ : ∀ a ls, φ a ls → ls ≠ [])
    (hk : ∀ a q, q.feed.Sealed → q.feed.rest.length < p.feed.rest.length →
      Agrees (k a) (l a) q) : Agrees (x >>= k) (x >>= l) p := by
  refine step hp hx ha fun a ls q h hq hlen => hk a q hq ?_
  have := List.length_pos_iff.mpr (hφ a ls h)
  omega

theorem advance_pass {k l : Unit → Parse β} {t : Lexeme} (hp : p.feed.Sealed)
    (ht : p.feed.current.lexeme = t) (hne : t ≠ .endOfText)
    (hk : ∀ q, q.feed.Sealed → q.feed.rest.length < p.feed.rest.length → Agrees (k ()) (l ()) q) :
    Agrees (Parse.advance >>= k) (Parse.advance >>= l) p :=
  pass hp (advance hp) (.advance ht hne) (by simp +contextual) fun _ => hk

theorem keyword_pass {k l : Unit → Parse β} {w : Keyword} (hp : p.feed.Sealed)
    (hk : ∀ q, q.feed.Sealed → q.feed.rest.length < p.feed.rest.length → Agrees (k ()) (l ()) q) :
    Agrees (Parse.keyword w >>= k) (Parse.keyword w >>= l) p :=
  pass hp (keyword hp) .keyword (by simp +contextual) fun _ => hk

theorem identifier_pass {k l : String × Span → Parse β} {details : String} (hp : p.feed.Sealed)
    (hk : ∀ i q, q.feed.Sealed → q.feed.rest.length < p.feed.rest.length → Agrees (k i) (l i) q) :
    Agrees (Parse.identifier details >>= k) (Parse.identifier details >>= l) p :=
  pass hp (identifier hp) .identifier (by simp +contextual) hk

end Agrees

/-- Both amounts of fuel are enough for a production of rank `r`. -/
structure Covers (n m r : Nat) (f : Feed) : Prop where
  isSealed : f.Sealed
  left : 24 * f.rest.length + r ≤ n
  right : 24 * f.rest.length + r ≤ m

namespace Covers

variable {f g : Feed} {s : Nat}

theorem deeper (h : Covers (n + 1) (m + 1) r f) (hs : s < r) (hg : g.Sealed)
    (hle : g.rest.length ≤ f.rest.length) : Covers n m s g := by
  obtain ⟨_, hn, hm⟩ := h
  exact ⟨hg, by omega, by omega⟩

theorem here (h : Covers (n + 1) (m + 1) r f) (hs : s < r) : Covers n m s f :=
  h.deeper hs h.isSealed (Nat.le_refl _)

theorem further (h : Covers (n + 1) (m + 1) r f) (hs : s < 24) (hg : g.Sealed)
    (hlt : g.rest.length < f.rest.length) : Covers n m s g := by
  obtain ⟨_, hn, hm⟩ := h
  exact ⟨hg, by omega, by omega⟩

end Covers

def operandRank : Level → Nat
  | .logic => 15
  | .comparison => 12
  | .sum => 10
  | .product => 8
  | .power => 5

theorem operandRank_pos (level : Level) : 0 < operandRank level := by
  cases level <;> decide

/-- Two amounts of fuel agree on every production that both are enough for. -/
structure Settled (n m : Nat) : Prop where
  statements : ∀ p, Covers n m 19 p.feed → Agrees (statements n) (statements m) p
  moreStatements : ∀ p, Covers n m 1 p.feed → Agrees (moreStatements n) (moreStatements m) p
  statement : ∀ p, Covers n m 18 p.feed → Agrees (statement n) (statement m) p
  expression : ∀ p, Covers n m 17 p.feed → Agrees (expression n) (expression m) p
  negation : ∀ p, Covers n m 14 p.feed → Agrees (negation n) (negation m) p
  chain : ∀ p l, Covers n m (operandRank l + 1) p.feed → Agrees (chain n l) (chain m l) p
  moreOperands : ∀ p l a, Covers n m 1 p.feed → Agrees (moreOperands n l a) (moreOperands m l a) p
  operand : ∀ p l, Covers n m (operandRank l) p.feed → Agrees (operand n l) (operand m l) p
  factor : ∀ p, Covers n m 7 p.feed → Agrees (factor n) (factor m) p
  call : ∀ p, Covers n m 4 p.feed → Agrees (call n) (call m) p
  moreItems : ∀ p, Covers n m 1 p.feed → Agrees (moreItems n) (moreItems m) p
  atom : ∀ p, Covers n m 3 p.feed → Agrees (atom n) (atom m) p
  listLiteral : ∀ p, Covers n m 2 p.feed → Agrees (listLiteral n) (listLiteral m) p
  branch : ∀ p, Covers n m 2 p.feed → Agrees (branch n) (branch m) p
  cases : ∀ p w, Covers n m 1 p.feed → Agrees (cases n w) (cases m w) p
  moreCases : ∀ p, Covers n m 2 p.feed → Agrees (moreCases n) (moreCases m) p
  fallback : ∀ p, Covers n m 1 p.feed → Agrees (fallback n) (fallback m) p
  loopBody : ∀ p, Covers n m 1 p.feed → Agrees (loopBody n) (loopBody m) p
  forLoop : ∀ p, Covers n m 2 p.feed → Agrees (forLoop n) (forLoop m) p
  whileLoop : ∀ p, Covers n m 2 p.feed → Agrees (whileLoop n) (whileLoop m) p
  function : ∀ p, Covers n m 2 p.feed → Agrees (function n) (function m) p

namespace Settled

theorem zero_left : Settled 0 m := by
  constructor
  case operand =>
    intro p l h
    have hl := h.left
    have := operandRank_pos l
    omega
  all_goals intros; next h => exact absurd h.left (by omega)

theorem zero_right : Settled n 0 := by
  constructor
  case operand =>
    intro p l h
    have hr := h.right
    have := operandRank_pos l
    omega
  all_goals intros; next h => exact absurd h.right (by omega)

variable (ih : Settled n m)

include ih

theorem statements_succ (h : Covers (n + 1) (m + 1) 19 p.feed) :
    Agrees (Parse.statements (n + 1)) (Parse.statements (m + 1)) p := by
  rw [Parse.statements, Parse.statements]
  refine .current <| .bind (.newlines h.isSealed) fun _ q hq hle => ?_
  refine .bind (.part <| ih.statement _ <| h.deeper (by decide) hq hle) fun _ q' hq' hle' => ?_
  have hle' := Nat.le_trans hle' hle
  refine .bind (ih.moreStatements q' <| h.deeper (by decide) hq' hle') fun _ _ hs _ => ?_
  exact .current <| .ret _ hs

theorem moreStatements_succ (h : Covers (n + 1) (m + 1) 1 p.feed) :
    Agrees (Parse.moreStatements (n + 1)) (Parse.moreStatements (m + 1)) p := by
  rw [Parse.moreStatements, Parse.moreStatements]
  apply Agrees.step h.isSealed (.newlines h.isSealed) .newlines
  intro c ls q hls hq hlen
  split
  · exact .ret _ hq
  · next hc =>
    rw [hls, List.length_replicate] at hlen
    have hlt : q.feed.rest.length < p.feed.rest.length := by omega
    refine .bind (.attempt hq <| ih.statement _ <| h.further (by decide) hq hlt)
      fun o q' hq' hle => ?_
    cases o with
    | none => exact .ret _ hq'
    | some s =>
      have hlt' := Nat.lt_of_le_of_lt hle hlt
      refine .bind (ih.moreStatements q' <| h.further (by decide) hq' hlt') fun _ _ hs _ => ?_
      exact .ret _ hs

theorem statement_succ (h : Covers (n + 1) (m + 1) 18 p.feed) :
    Agrees (Parse.statement (n + 1)) (Parse.statement (m + 1)) p := by
  rw [Parse.statement, Parse.statement]
  refine .current <| .lexeme ?_
  split
  · next hl =>
    apply Agrees.advance_pass h.isSealed hl (by simp)
    intro q hq hlt
    refine .bind (.attempt hq <| ih.expression _ <| h.further (by decide) hq hlt) fun _ _ hs _ => ?_
    exact .current <| .ret _ hs
  · next hl =>
    apply Agrees.advance_pass h.isSealed hl (by simp)
    intro q hq hlt
    refine .bind (.attempt hq <| ih.expression _ <| h.further (by decide) hq hlt) fun _ _ hs _ => ?_
    exact .current <| .ret _ hs
  · exact .bind (.advance h.isSealed) fun _ _ hq _ => .current <| .ret _ hq
  · exact .bind (.advance h.isSealed) fun _ _ hq _ => .current <| .ret _ hq
  · exact .partOr <| ih.expression _ <| h.here (by decide)

theorem expression_succ (h : Covers (n + 1) (m + 1) 17 p.feed) :
    Agrees (Parse.expression (n + 1)) (Parse.expression (m + 1)) p := by
  rw [Parse.expression, Parse.expression]
  apply Agrees.lexeme
  split
  · next hl =>
    apply Agrees.advance_pass h.isSealed hl (by simp)
    intro q hq hlt
    refine .identifier_pass hq fun i q₁ hq₁ hlt₁ => .bind (.assignSign hq₁) fun _ q₂ hq₂ hle => ?_
    have hlt₂ : q₂.feed.rest.length < p.feed.rest.length := by omega
    exact .bind (.part <| ih.expression _ <| h.further (by decide) hq₂ hlt₂)
      fun _ _ hs _ => .ret _ hs
  · refine .bind (.advance h.isSealed) fun _ q hq _ => .current ?_
    split
    · exact .bind (.advance hq) fun _ _ hs _ => .ret _ hs
    · exact .reject
  · exact .partOr <| ih.chain _ _ <| h.here (by decide)

theorem negation_succ (h : Covers (n + 1) (m + 1) 14 p.feed) :
    Agrees (Parse.negation (n + 1)) (Parse.negation (m + 1)) p := by
  rw [Parse.negation, Parse.negation]
  apply Agrees.current
  split
  · next hl =>
    apply Agrees.advance_pass h.isSealed hl (by simp)
    intro q hq hlt
    exact .bind (.part <| ih.negation _ <| h.further (by decide) hq hlt) fun _ _ hs _ => .ret _ hs
  · exact .partOr <| ih.chain _ _ <| h.here (by decide)

theorem chain_succ (l : Level) (h : Covers (n + 1) (m + 1) (operandRank l + 1) p.feed) :
    Agrees (Parse.chain (n + 1) l) (Parse.chain (m + 1) l) p := by
  rw [Parse.chain, Parse.chain]
  refine .bind (.part <| ih.operand _ l <| h.here (Nat.lt_succ_self _)) fun a q hq hle => ?_
  exact ih.moreOperands q l a <| h.deeper (Nat.succ_lt_succ (operandRank_pos l)) hq hle

theorem rightOperand (l : Level) (h : Covers n m 15 p.feed) :
    Agrees (Parse.rightOperand n l) (Parse.rightOperand m l) p := by
  have hw : ∀ s ≤ 15, Covers n m s p.feed := fun s hs =>
    ⟨h.isSealed, Nat.le_trans (by omega) h.left, Nat.le_trans (by omega) h.right⟩
  cases l
  case power => exact ih.factor p (hw _ (by decide))
  all_goals exact ih.operand p _ (hw _ (by decide))

theorem moreOperands_succ (l : Level) (a : Node) (h : Covers (n + 1) (m + 1) 1 p.feed) :
    Agrees (Parse.moreOperands (n + 1) l a) (Parse.moreOperands (m + 1) l a) p := by
  rw [Parse.moreOperands_succ, Parse.moreOperands_succ]
  apply Agrees.lexeme
  split
  · exact .ret _ h.isSealed
  · next op ho =>
    have hne : p.feed.current.lexeme ≠ .endOfText :=
      fun he => by cases l <;> simp [he, Level.op?] at ho
    apply Agrees.advance_pass h.isSealed rfl hne
    intro q hq hlt
    refine .bind (.part <| ih.rightOperand l <| h.further (by decide) hq hlt)
      fun right q' hq' hle => ?_
    exact ih.moreOperands q' l _ <| h.further (by decide) hq' (Nat.lt_of_le_of_lt hle hlt)

theorem operand_succ (l : Level) (h : Covers (n + 1) (m + 1) (operandRank l) p.feed) :
    Agrees (Parse.operand (n + 1) l) (Parse.operand (m + 1) l) p := by
  cases l <;> rw [Parse.operand, Parse.operand]
  case logic => exact ih.negation p (h.here (by decide))
  case product => exact ih.factor p (h.here (by decide))
  case power => exact ih.call p (h.here (by decide))
  all_goals exact ih.chain p _ (h.here (by decide))

theorem factor_succ (h : Covers (n + 1) (m + 1) 7 p.feed) :
    Agrees (Parse.factor (n + 1)) (Parse.factor (m + 1)) p := by
  rw [Parse.factor, Parse.factor]
  apply Agrees.current
  split
  · next hl =>
    apply Agrees.advance_pass h.isSealed hl (by simp)
    intro q hq hlt
    exact .bind (.part <| ih.factor _ <| h.further (by decide) hq hlt) fun _ _ hs _ => .ret _ hs
  · next hl =>
    apply Agrees.advance_pass h.isSealed hl (by simp)
    intro q hq hlt
    exact .bind (.part <| ih.factor _ <| h.further (by decide) hq hlt) fun _ _ hs _ => .ret _ hs
  · exact ih.chain p _ (h.here (by decide))

theorem call_succ (h : Covers (n + 1) (m + 1) 4 p.feed) :
    Agrees (Parse.call (n + 1)) (Parse.call (m + 1)) p := by
  rw [Parse.call, Parse.call]
  refine .bind (.part <| ih.atom _ <| h.here (by decide)) fun callee q hq hle => .lexeme ?_
  split
  · next ho =>
    refine .advance_pass hq ho (by simp) fun q₁ hq₁ hlt => .lexeme ?_
    have hlt₁ := Nat.lt_of_lt_of_le hlt hle
    split
    · exact .bind (.advance hq₁) fun _ _ hs _ => .ret _ hs
    · refine .bind (.partOr <| ih.expression _ <| h.further (by decide) hq₁ hlt₁)
        fun first q₂ hq₂ hle₂ => ?_
      have hlt₂ := Nat.lt_of_le_of_lt hle₂ hlt₁
      refine .bind (ih.moreItems q₂ <| h.further (by decide) hq₂ hlt₂)
        fun others q₃ hq₃ _ => .lexeme ?_
      split
      · exact .bind (.advance hq₃) fun _ _ hs _ => .ret _ hs
      · exact .reject
  · exact .ret _ hq

theorem moreItems_succ (h : Covers (n + 1) (m + 1) 1 p.feed) :
    Agrees (Parse.moreItems (n + 1)) (Parse.moreItems (m + 1)) p := by
  rw [Parse.moreItems, Parse.moreItems]
  apply Agrees.lexeme
  split
  · next hc =>
    apply Agrees.advance_pass h.isSealed hc (by simp)
    intro q hq hlt
    refine .bind (.part <| ih.expression _ <| h.further (by decide) hq hlt)
      fun item q₁ hq₁ hle => ?_
    have hlt₁ := Nat.lt_of_le_of_lt hle hlt
    exact .bind (ih.moreItems q₁ <| h.further (by decide) hq₁ hlt₁) fun _ _ hs _ => .ret _ hs
  · exact .ret _ h.isSealed

theorem atom_succ (h : Covers (n + 1) (m + 1) 3 p.feed) :
    Agrees (Parse.atom (n + 1)) (Parse.atom (m + 1)) p := by
  have hlit (a : Node) : Agrees (advance >>= fun _ => pure a) (advance >>= fun _ => pure a) p :=
    .bind (.advance h.isSealed) fun _ _ hs _ => .ret _ hs
  rw [Parse.atom, Parse.atom]
  apply Agrees.current
  split
  · exact hlit _
  · exact hlit _
  · exact hlit _
  · exact hlit _
  · next hl =>
    apply Agrees.advance_pass h.isSealed hl (by simp)
    intro q hq hlt
    refine .bind (.part <| ih.expression _ <| h.further (by decide) hq hlt)
      fun inner q₁ hq₁ _ => .lexeme ?_
    split
    · exact .bind (.advance hq₁) fun _ _ hs _ => .ret _ hs
    · exact .reject
  · exact .part <| ih.listLiteral _ <| h.here (by decide)
  · exact .part <| ih.branch _ <| h.here (by decide)
  · exact .part <| ih.forLoop _ <| h.here (by decide)
  · exact .part <| ih.whileLoop _ <| h.here (by decide)
  · exact .part <| ih.function _ <| h.here (by decide)
  · exact .reject

theorem listLiteral_succ (h : Covers (n + 1) (m + 1) 2 p.feed) :
    Agrees (Parse.listLiteral (n + 1)) (Parse.listLiteral (m + 1)) p := by
  rw [Parse.listLiteral, Parse.listLiteral]
  refine .current <| .lexeme ?_
  dsimp only
  split
  · next ho =>
    refine .advance_pass h.isSealed ho (by simp) fun q₁ hq₁ hlt => .lexeme ?_
    split
    · exact .bind (.advance hq₁) fun _ _ hs _ => .current <| .ret _ hs
    · refine .bind (.partOr <| ih.expression _ <| h.further (by decide) hq₁ hlt)
        fun first q₂ hq₂ hle => ?_
      have hlt₂ := Nat.lt_of_le_of_lt hle hlt
      refine .bind (ih.moreItems q₂ <| h.further (by decide) hq₂ hlt₂)
        fun others q₃ hq₃ _ => .lexeme ?_
      split
      · exact .bind (.advance hq₃) fun _ _ hs _ => .current <| .ret _ hs
      · exact .reject
  · exact .bind_of_left .reject fun _ _ h => by cases h

theorem branch_succ (h : Covers (n + 1) (m + 1) 2 p.feed) :
    Agrees (Parse.branch (n + 1)) (Parse.branch (m + 1)) p := by
  rw [Parse.branch, Parse.branch]
  exact .bind (.part <| ih.cases _ _ <| h.here (by decide)) fun _ _ hs _ => .ret _ hs

theorem cases_succ (lead : Keyword) (h : Covers (n + 1) (m + 1) 1 p.feed) :
    Agrees (Parse.cases (n + 1) lead) (Parse.cases (m + 1) lead) p := by
  rw [Parse.cases, Parse.cases]
  apply Agrees.bind (.optionalVar h.isSealed)
  intro _ q₁ hq₁ hle₁
  apply Agrees.keyword_pass hq₁
  intro q₂ hq₂ hlt
  have hlt₂ := Nat.lt_of_lt_of_le hlt hle₁
  refine .bind (.part <| ih.expression _ <| h.further (by decide) hq₂ hlt₂) fun c q₃ hq₃ hle₃ => ?_
  have hlt₃ := Nat.lt_of_le_of_lt hle₃ hlt₂
  refine .bind (.keyword hq₃) fun _ q₄ hq₄ hle₄ => .lexeme ?_
  have hlt₄ := Nat.lt_of_le_of_lt hle₄ hlt₃
  split
  · apply Agrees.bind (.advance hq₄)
    intro _ q₅ hq₅ hle₅
    have hlt₅ := Nat.lt_of_le_of_lt hle₅ hlt₄
    refine .bind (.part <| ih.statements _ <| h.further (by decide) hq₅ hlt₅)
      fun b q₆ hq₆ hle₆ => ?_
    have hlt₆ := Nat.lt_of_le_of_lt hle₆ hlt₅
    refine .ifKeyword (fun _ => .bind (.advance hq₆) fun _ _ hs _ => .ret _ hs) ?_
    exact .bind (.part <| ih.moreCases _ <| h.further (by decide) hq₆ hlt₆)
      fun _ _ hs _ => .ret _ hs
  · refine .bind (.part <| ih.statement _ <| h.further (by decide) hq₄ hlt₄)
      fun b q₅ hq₅ hle₅ => ?_
    have hlt₅ := Nat.lt_of_le_of_lt hle₅ hlt₄
    exact .bind (.part <| ih.moreCases _ <| h.further (by decide) hq₅ hlt₅)
      fun _ _ hs _ => .ret _ hs

theorem moreCases_succ (h : Covers (n + 1) (m + 1) 2 p.feed) :
    Agrees (Parse.moreCases (n + 1)) (Parse.moreCases (m + 1)) p := by
  rw [Parse.moreCases, Parse.moreCases]
  refine .ifKeyword (fun _ => .part <| ih.cases _ _ <| h.here (by decide)) ?_
  exact .bind (.part <| ih.fallback _ <| h.here (by decide)) fun _ _ hs _ => .ret _ hs

theorem fallback_succ (h : Covers (n + 1) (m + 1) 1 p.feed) :
    Agrees (Parse.fallback (n + 1)) (Parse.fallback (m + 1)) p := by
  rw [Parse.fallback, Parse.fallback]
  refine .ifKeyword (fun hl => ?_) (.ret _ h.isSealed)
  refine .advance_pass h.isSealed hl (by simp) fun q₁ hq₁ hlt => .lexeme ?_
  split
  · apply Agrees.bind (.advance hq₁)
    intro _ q₂ hq₂ hle
    have hlt₂ := Nat.lt_of_le_of_lt hle hlt
    refine .bind (.part <| ih.statements _ <| h.further (by decide) hq₂ hlt₂) fun b q₃ hq₃ _ => ?_
    exact .bind (.keyword hq₃) fun _ _ hs _ => .ret _ hs
  · exact .bind (.part <| ih.statement _ <| h.further (by decide) hq₁ hlt) fun _ _ hs _ => .ret _ hs

theorem loopBody_succ (h : Covers (n + 1) (m + 1) 1 p.feed) :
    Agrees (Parse.loopBody (n + 1)) (Parse.loopBody (m + 1)) p := by
  rw [Parse.loopBody, Parse.loopBody]
  refine .keyword_pass h.isSealed fun q₁ hq₁ hlt => .lexeme ?_
  split
  · apply Agrees.bind (.advance hq₁)
    intro _ q₂ hq₂ hle
    have hlt₂ := Nat.lt_of_le_of_lt hle hlt
    refine .bind (.part <| ih.statements _ <| h.further (by decide) hq₂ hlt₂) fun b q₃ hq₃ _ => ?_
    exact .bind (.keyword hq₃) fun _ _ hs _ => .ret _ hs
  · exact .bind (.part <| ih.statement _ <| h.further (by decide) hq₁ hlt) fun _ _ hs _ => .ret _ hs

theorem whileLoop_succ (h : Covers (n + 1) (m + 1) 2 p.feed) :
    Agrees (Parse.whileLoop (n + 1)) (Parse.whileLoop (m + 1)) p := by
  rw [Parse.whileLoop, Parse.whileLoop]
  apply Agrees.keyword_pass h.isSealed
  intro q₁ hq₁ hlt
  refine .bind (.part <| ih.expression _ <| h.further (by decide) hq₁ hlt) fun c q₂ hq₂ hle => ?_
  have hlt₂ := Nat.lt_of_le_of_lt hle hlt
  exact .bind (ih.loopBody q₂ <| h.further (by decide) hq₂ hlt₂) fun _ _ hs _ => .ret _ hs

theorem forLoop_succ (h : Covers (n + 1) (m + 1) 2 p.feed) :
    Agrees (Parse.forLoop (n + 1)) (Parse.forLoop (m + 1)) p := by
  rw [Parse.forLoop, Parse.forLoop]
  apply Agrees.keyword_pass h.isSealed
  intro q₁ hq₁ hlt₁
  apply Agrees.bind (.optionalVar hq₁)
  intro _ q₂ hq₂ hle
  have hlt₂ := Nat.lt_of_le_of_lt hle hlt₁
  apply Agrees.bind (.identifier hq₂)
  intro name q₃ hq₃ hle
  have hlt₃ := Nat.lt_of_le_of_lt hle hlt₂
  apply Agrees.bind (.assignSign hq₃)
  intro _ q₄ hq₄ hle
  have hlt₄ := Nat.lt_of_le_of_lt hle hlt₃
  refine .bind (.part <| ih.expression _ <| h.further (by decide) hq₄ hlt₄) fun _ q₅ hq₅ hle => ?_
  have hlt₅ := Nat.lt_of_le_of_lt hle hlt₄
  apply Agrees.bind (.keyword hq₅)
  intro _ q₆ hq₆ hle
  have hlt₆ := Nat.lt_of_le_of_lt hle hlt₅
  refine .bind (.part <| ih.expression _ <| h.further (by decide) hq₆ hlt₆) fun _ q₇ hq₇ hle => ?_
  have hlt₇ := Nat.lt_of_le_of_lt hle hlt₆
  have hstep :
      Agrees (Parse.loopStep (Parse.expression n)) (Parse.loopStep (Parse.expression m)) q₇ := by
    refine .ifKeyword (fun _ => .bind (.advance hq₇) fun _ q hq hle => ?_) (.ret _ hq₇)
    have hlt := Nat.lt_of_le_of_lt hle hlt₇
    exact .bind (.part <| ih.expression _ <| h.further (by decide) hq hlt) fun _ _ hs _ => .ret _ hs
  apply Agrees.bind hstep
  intro _ q₈ hq₈ hle
  have hlt₈ := Nat.lt_of_le_of_lt hle hlt₇
  exact .bind (ih.loopBody q₈ <| h.further (by decide) hq₈ hlt₈) fun _ _ hs _ => .ret _ hs

omit ih in
theorem moreParams (n m : Nat) (p : Progress) (h : Covers n m 1 p.feed) :
    Agrees (Parse.moreParams n) (Parse.moreParams m) p := by
  induction n generalizing m p with
  | zero => exact absurd h.left (by omega)
  | succ n ih =>
    cases m with
    | zero => exact absurd h.right (by omega)
    | succ m =>
      apply Agrees.lexeme
      split
      · next hc =>
        apply Agrees.advance_pass h.isSealed hc (by simp)
        intro q hq hlt
        apply Agrees.bind (.identifier hq)
        intro i q₁ hq₁ hle
        have hlt₁ := Nat.lt_of_le_of_lt hle hlt
        exact .bind (ih m q₁ <| h.further (by decide) hq₁ hlt₁) fun _ _ hs _ => .ret _ hs
      · exact .ret _ h.isSealed

omit ih in
theorem params (h : Covers n m 1 p.feed) : Agrees (Parse.params n) (Parse.params m) p := by
  apply Agrees.lexeme
  split
  · apply Agrees.bind (.identifier h.isSealed)
    intro i q hq hle
    have hc : Covers n m 1 q.feed := ⟨hq, by have := h.left; omega, by have := h.right; omega⟩
    refine .bind (moreParams n m q hc) fun others q₁ hq₁ _ => .lexeme ?_
    split
    · exact .bind (.advance hq₁) fun _ _ hs _ => .ret _ hs
    · exact .reject
  · exact .bind (.advance h.isSealed) fun _ _ hs _ => .ret _ hs
  · exact .reject

theorem function_succ (h : Covers (n + 1) (m + 1) 2 p.feed) :
    Agrees (Parse.function (n + 1)) (Parse.function (m + 1)) p := by
  rw [Parse.function, Parse.function]
  apply Agrees.keyword_pass h.isSealed
  intro q₁ hq₁ hlt₁
  refine .bind (.functionName hq₁) fun name? q₂ hq₂ hle => ?_
  have hlt₂ := Nat.lt_of_le_of_lt hle hlt₁
  apply Agrees.bind (.openParams hq₂)
  intro _ q₃ hq₃ hle
  have hlt₃ := Nat.lt_of_le_of_lt hle hlt₂
  refine .bind (params <| h.further (by decide) hq₃ hlt₃) fun ps q₄ hq₄ hle => .lexeme ?_
  have hlt₄ := Nat.lt_of_le_of_lt hle hlt₃
  split
  · apply Agrees.bind (.advance hq₄)
    intro _ q₅ hq₅ hle
    have hlt₅ := Nat.lt_of_le_of_lt hle hlt₄
    exact .bind (.part <| ih.expression _ <| h.further (by decide) hq₅ hlt₅)
      fun _ _ hs _ => .ret _ hs
  · apply Agrees.bind (.advance hq₄)
    intro _ q₅ hq₅ hle
    have hlt₅ := Nat.lt_of_le_of_lt hle hlt₄
    refine .bind (.part <| ih.statements _ <| h.further (by decide) hq₅ hlt₅) fun _ q₆ hq₆ _ => ?_
    exact .bind (.keyword hq₆) fun _ _ hs _ => .ret _ hs
  · exact .reject

theorem succ : Settled (n + 1) (m + 1) where
  statements _ := ih.statements_succ
  moreStatements _ := ih.moreStatements_succ
  statement _ := ih.statement_succ
  expression _ := ih.expression_succ
  negation _ := ih.negation_succ
  chain _ := ih.chain_succ
  moreOperands _ := ih.moreOperands_succ
  operand _ := ih.operand_succ
  factor _ := ih.factor_succ
  call _ := ih.call_succ
  moreItems _ := ih.moreItems_succ
  atom _ := ih.atom_succ
  listLiteral _ := ih.listLiteral_succ
  branch _ := ih.branch_succ
  cases _ := ih.cases_succ
  moreCases _ := ih.moreCases_succ
  fallback _ := ih.fallback_succ
  loopBody _ := ih.loopBody_succ
  forLoop _ := ih.forLoop_succ
  whileLoop _ := ih.whileLoop_succ
  function _ := ih.function_succ

end Settled

theorem settled : ∀ n m, Settled n m
  | 0, _ => .zero_left
  | _ + 1, 0 => .zero_right
  | n + 1, m + 1 => (settled n m).succ

/-- Any fuel from `fuelFor` on reads the same program from a feed, and never runs out. -/
theorem program_agrees (hp : p.feed.Sealed) (hn : fuelFor p.feed.tokens.length ≤ n) :
    Agrees (program (fuelFor p.feed.tokens.length)) (program n) p := by
  have hc : Covers (fuelFor p.feed.tokens.length) n 19 p.feed := by
    have hlen : p.feed.tokens.length = p.feed.rest.length + 1 := List.length_cons
    rw [hlen, fuelFor] at hn ⊢
    exact ⟨hp, by omega, by omega⟩
  refine .bind ((settled _ _).statements p hc) fun body q hq _ => .lexeme ?_
  split
  · exact .ret _ hq
  · exact .reject

end Think.Parse
