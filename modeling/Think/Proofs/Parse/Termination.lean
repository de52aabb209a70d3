import Think.Node.Cursor
import Think.Proofs.Parse.Fuel
import Think.Proofs.Parse.Rejection
import Think.Proofs.Parse.Soundness
import Think.Proofs.Token.Tiling

/-! # Reading ends

Productions put tokens back when they give up a part, but never more than they have passed. Together
with the bound on nesting this shows that reading the tokens of a text ends, with at least one
statement or with a report of what was expected. -/

namespace Think

/-- From `p` to `q` as many tokens were passed as were counted. -/
structure Progress.Reaches (p q : Progress) : Prop where
  advances : p.advances ≤ q.advances
  tokens : q.feed.tokens = p.feed.tokens.drop (q.advances - p.advances)

namespace Progress.Reaches

variable {p q r : Progress}

theorem refl (p : Progress) : p.Reaches p := ⟨Nat.le_refl _, by simp⟩

theorem trans (hpq : p.Reaches q) (hqr : q.Reaches r) : p.Reaches r := by
  refine ⟨Nat.le_trans hpq.advances hqr.advances, ?_⟩
  rw [hqr.tokens, hpq.tokens, List.drop_drop]
  congr 1
  have := hpq.advances
  have := hqr.advances
  omega

theorem isSealed (h : p.Reaches q) (hp : p.feed.Sealed) : q.feed.Sealed :=
  hp.of_append (u := p.feed.tokens.take (q.advances - p.advances)) (by
    rw [h.tokens, List.take_append_drop])

theorem of_passes {ls : List Lexeme} (h : p.feed.Passes ls q.feed)
    (hcount : q.advances = p.advances + ls.length) : p.Reaches q := by
  obtain ⟨u, hu, rfl⟩ := h
  refine ⟨by omega, ?_⟩
  rw [hu, hcount, Nat.add_sub_cancel_left, List.length_map, List.drop_left]

end Progress.Reaches

namespace Parse

variable {α β : Type} {x : Parse α} {k : α → Parse β} {p : Progress} {n : Nat}

theorem snd_partOr (details : String) (x : Parse α) (p : Progress) :
    (partOr details x p).2 = (part x p).2 := by
  rw [partOr, part]
  rcases x (.start p.feed) with ⟨(e | _) | a, q⟩
  · dsimp only
    split <;> rfl
  · rfl
  · rfl

/-- However the production ends, it has counted the tokens that it passed. -/
def Tracks (x : Parse α) (p : Progress) : Prop := p.feed.Sealed → p.Reaches (x p).2

namespace Tracks

theorem bind (hx : Tracks x p) (hk : ∀ a q, Tracks (k a) q) : Tracks (x >>= k) p := by
  intro hp
  have hreach := hx hp
  rw [bind_apply]
  rcases h : x p with ⟨e | a, q⟩
  · simpa only [h] using hreach
  · rw [h] at hreach
    exact hreach.trans (hk a q (hreach.isSealed hp))

theorem of_still (h : (x p).2 = p) : Tracks x p := by
  intro _
  rw [h]
  exact .refl p

theorem ret (a : α) : Tracks (pure a) p := of_still rfl

theorem reject (details : String) : Tracks (reject details : Parse α) p := of_still rfl

theorem lexeme {k : Lexeme → Parse β} (h : Tracks (k p.feed.current.lexeme) p) :
    Tracks (lexeme >>= k) p := h

theorem current {k : Token → Parse β} (h : Tracks (k p.feed.current) p) :
    Tracks (current >>= k) p := h

theorem advance {l : Lexeme} (hl : p.feed.current.lexeme = l) (h : l ≠ .endOfText) :
    Tracks advance p :=
  fun hp => .of_passes (hp.passes_advance hl h) rfl

theorem newlines : Tracks newlines p := by
  intro hp
  exact .of_passes hp.passes_breaks.1 (by rw [List.length_replicate]; rfl)

theorem part (h : Tracks x (.start p.feed)) : Tracks (part x) p := by
  intro hp
  obtain ⟨hadvances, htokens⟩ := h hp
  refine ⟨Nat.le_add_right _ _, ?_⟩
  change (x (.start p.feed)).2.feed.tokens = _
  rw [htokens]
  change _ = p.feed.tokens.drop (p.advances + (x (.start p.feed)).2.advances - p.advances)
  rw [Nat.add_sub_cancel_left]
  rfl

theorem partOr {details : String} (h : Tracks x (.start p.feed)) : Tracks (partOr details x) p := by
  intro hp
  rw [snd_partOr]
  exact h.part hp

theorem attempt (h : Tracks x (.start p.feed)) : Tracks (attempt x) p := by
  intro hp
  have hpart := h.part hp
  rw [Parse.part] at hpart
  rw [Parse.attempt]
  rcases hx : x (.start p.feed) with ⟨(e | _) | a, q⟩
  · exact ⟨Nat.le_refl _, by simp [Progress.giveUp]⟩
  · simpa only [hx] using hpart
  · simpa only [hx] using hpart

theorem importForm (hl : p.feed.current.lexeme = .keyword .importKw) : Tracks importForm p := by
  refine (advance hl (by simp)).bind fun _ _ => current ?_
  split
  · next ht => exact (advance ht (by simp)).bind fun _ _ => ret _
  · exact reject _

end Tracks

theorem closed_tracks : Closed Tracks where
  ret _ _ := .ret _
  exhausted _ := .of_still rfl
  reject _ _ := .reject _
  bind := .bind
  current := .current
  lexeme := .lexeme
  advance hl h := .advance hl h.1
  importForm := .importForm
  newlines _ := .newlines
  part := .part
  partOr _ := .partOr
  attempt := .attempt

theorem Agrees.map {y : Parse α} {f : α → β} (h : Agrees x y p) :
    Agrees (f <$> x) (f <$> y) p := by
  rw [← bind_pure_comp, ← bind_pure_comp]
  exact h.bind fun _ _ hq _ => .ret _ hq

end Parse

namespace Production

theorem tracks (production : Production) (n : Nat) (p : Progress) :
    Parse.Tracks (production.run n) p :=
  Parse.closed_tracks.production production n p fun _ _ _ _ _ =>
    Parse.closed_tracks.keyword_of_advance fun hl => .advance hl (by simp)

/-- Any fuel from `fuelFor` on reads the same, and never runs out. -/
theorem agrees (production : Production) {p : Progress} {n : Nat} (hp : p.feed.Sealed)
    (hn : Parse.fuelFor p.feed.tokens.length ≤ n) :
    Parse.Agrees (production.run (Parse.fuelFor p.feed.tokens.length)) (production.run n) p := by
  have hc (r : Nat) (hr : r ≤ 23) :
      Parse.Covers (Parse.fuelFor p.feed.tokens.length) n r p.feed := by
    have hlen : p.feed.tokens.length = p.feed.rest.length + 1 := List.length_cons
    rw [hlen, Parse.fuelFor] at hn ⊢
    exact ⟨hp, by omega, by omega⟩
  have ih := Parse.settled (Parse.fuelFor p.feed.tokens.length) n
  cases production with
  | program => exact (Parse.program_agrees hp hn).map
  | statements => exact (ih.statements p (hc _ (by decide))).map
  | statement => exact (ih.statement p (hc _ (by decide))).map
  | expression => exact (ih.expression p (hc _ (by decide))).map
  | negation => exact (ih.negation p (hc _ (by decide))).map
  | sum => exact (ih.chain p .sum (hc _ (by decide))).map
  | product => exact (ih.chain p .product (hc _ (by decide))).map
  | factor => exact (ih.factor p (hc _ (by decide))).map
  | power => exact (ih.chain p .power (hc _ (by decide))).map
  | call => exact (ih.call p (hc _ (by decide))).map
  | atom => exact (ih.atom p (hc _ (by decide))).map
  | listLiteral => exact (ih.listLiteral p (hc _ (by decide))).map
  | branch => exact (ih.branch p (hc _ (by decide))).map
  | moreCases => exact (ih.moreCases p (hc _ (by decide))).map
  | fallback => exact (ih.fallback p (hc _ (by decide))).map
  | forLoop => exact (ih.forLoop p (hc _ (by decide))).map
  | whileLoop => exact (ih.whileLoop p (hc _ (by decide))).map
  | function => exact (ih.function p (hc _ (by decide))).map
  | cases lead =>
    apply Parse.Agrees.map
    cases Keyword.ofText? lead with
    | some k => exact ih.cases p k (hc _ (by decide))
    | none => exact .bind (.optionalVar hp) fun _ _ _ _ => .reject

end Production

/-- Running the production from the feed ends within the nesting that `fuelFor` bounds, and putting
back the tokens that it has counted leads back to the feed. -/
structure Production.EndsFrom (production : Production) (f : Feed) : Prop where
  settled : (Parse.runOn production.run f).1 ≠ .error .exhausted
  eq : ∀ fuel, Parse.fuelFor f.tokens.length ≤ fuel →
    production.run fuel (.start f) = Parse.runOn production.run f
  back : (Parse.runOn production.run f).2.feed.tokens =
    f.tokens.drop (Parse.runOn production.run f).2.advances

theorem Production.endsFrom (production : Production) {f : Feed} (hf : f.Sealed) :
    production.EndsFrom f where
  settled := (production.agrees (p := .start f) hf (Nat.le_refl _)).settled
  eq _ hfuel := (production.agrees (p := .start f) hf hfuel).eq.symm
  back := (production.tracks _ (.start f) hf).tokens

/-- What is read from tokens has a statement, or it is reported what was expected at a token. -/
theorem Node.ofTokens_cases {f : Feed} (hf : f.Sealed) :
    (∃ span s ns, Node.ofTokens f.tokens = .ok (.list span (s :: ns))) ∨
      ∃ t details, Node.ofTokens f.tokens = .error (Parse.errorAt t details) := by
  have hsettled := (Parse.program_agrees (p := .start f) hf (Nat.le_refl _)).settled
  change Node.ofTokens f.tokens ≠ .error .exhausted at hsettled
  rcases h : Node.ofTokens f.tokens with e | node
  · rcases Parse.blames_program _ _ _ _ (Prod.ext h rfl) with rfl | ⟨t, details, rfl⟩
    · exact absurd h hsettled
    · exact .inr ⟨t, details, rfl⟩
  · obtain ⟨ls, -, span, ns, rfl, hd⟩ := Parse.program_accounts hf
      (⟨.start f, _, rfl, rfl, Prod.ext h rfl⟩ : Parse.Yields _ f node _)
    cases hd
    exact .inl ⟨_, _, _, rfl⟩

/-- Reading the tokens of any text ends: every production ends from every place among them, and the
whole gives a list of one statement or more, or reports what was expected at a token. -/
theorem Source.reading_ends (source : Source) (tokens : List Token)
    (h : source.tokens = .ok tokens) :
    (∀ (production : Production) (f : Feed), f.tokens <:+ tokens → production.EndsFrom f) ∧
    ((∃ span s ns, Node.ofTokens tokens = .ok (.list span (s :: ns))) ∨
      ∃ t details, Node.ofTokens tokens = .error (Parse.errorAt t details)) := by
  obtain ⟨body, last, rfl, hlast, -⟩ := (source.lexes_tokens h).tiles.ends
  have hsealed (f : Feed) (hf : f.tokens <:+ body ++ [last]) : f.Sealed := by
    obtain ⟨u, hu⟩ := hf
    have hl := congrArg List.getLast? hu
    rw [List.getLast?_append_of_ne_nil _ f.tokens_ne_nil, List.getLast?_concat] at hl
    rw [Feed.Sealed, hl, Option.map_some, hlast]
  refine ⟨fun production f hf => production.endsFrom (hsealed f hf), ?_⟩
  obtain ⟨f, hf⟩ : ∃ f : Feed, f.tokens = body ++ [last] := by
    cases body with
    | nil => exact ⟨⟨last, []⟩, rfl⟩
    | cons t rest => exact ⟨⟨t, rest ++ [last]⟩, rfl⟩
  rw [← hf]
  exact Node.ofTokens_cases (hsealed f (hf ▸ List.suffix_rfl))

/-- The value behind `return` is given up at the second bracket and put back. -/
theorem Source.reading_ends_return :
    ∃ tokens, Source.tokens ⟨"", "return (1 + )\n2"⟩ = .ok tokens ∧
      (∀ (production : Production) (f : Feed), f.tokens <:+ tokens → production.EndsFrom f) ∧
      ((∃ span s ns, Node.ofTokens tokens = .ok (.list span (s :: ns))) ∨
        ∃ t details, Node.ofTokens tokens = .error (Parse.errorAt t details)) :=
  ⟨_, rfl, Source.reading_ends ⟨"", "return (1 + )\n2"⟩ _ rfl⟩

end Think
