import Mathlib.Data.List.Basic
import Think.Node.Parser

/-! # What a production yields

`Yields x f a g` says that the production `x`, started on the feed `f`, gives `a` and leaves the
feed `g`. The counts of passed tokens play no part in it, so productions compose along their feeds
alone.
-/

namespace Think

namespace Feed

variable {f g : Feed}

/-- The last token marks the end of the text, so a feed never has to step past it. -/
def Sealed (f : Feed) : Prop := f.tokens.getLast?.map (·.lexeme) = some .endOfText

theorem tokens_ne_nil (f : Feed) : f.tokens ≠ [] := List.cons_ne_nil _ _

theorem Sealed.of_append {u : List Token} (hf : f.Sealed) (h : f.tokens = u ++ g.tokens) :
    g.Sealed := by
  rw [Sealed, h, List.getLast?_append_of_ne_nil _ g.tokens_ne_nil] at hf
  exact hf

theorem Sealed.advance_tokens (hf : f.Sealed) (h : f.current.lexeme ≠ .endOfText) :
    f.tokens = f.current :: f.advance.tokens := by
  obtain ⟨current, rest⟩ := f
  cases rest with
  | nil => exact absurd (Option.some.inj hf) h
  | cons t rest => rfl

/-- The lexemes `ls` stand in the feed before its part `g`. -/
def Passes (f : Feed) (ls : List Lexeme) (g : Feed) : Prop :=
  ∃ u : List Token, f.tokens = u ++ g.tokens ∧ u.map (·.lexeme) = ls

theorem Passes.refl (f : Feed) : f.Passes [] f := ⟨[], rfl, rfl⟩

theorem Passes.trans {h : Feed} {ls ms : List Lexeme} (hfg : f.Passes ls g) (hgh : g.Passes ms h) :
    f.Passes (ls ++ ms) h := by
  obtain ⟨u, hu, rfl⟩ := hfg
  obtain ⟨v, hv, rfl⟩ := hgh
  exact ⟨u ++ v, by rw [hu, hv, List.append_assoc], List.map_append⟩

theorem Sealed.passes {ls : List Lexeme} (hf : f.Sealed) (h : f.Passes ls g) : g.Sealed := by
  obtain ⟨u, hu, _⟩ := h
  exact hf.of_append hu

theorem Sealed.passes_advance {l : Lexeme} (hf : f.Sealed) (hl : f.current.lexeme = l)
    (h : l ≠ .endOfText) : f.Passes [l] f.advance :=
  ⟨[f.current], hf.advance_tokens (hl ▸ h), by rw [List.map_singleton, hl]⟩

theorem Passes.length {ls : List Lexeme} (h : f.Passes ls g) :
    g.rest.length + ls.length = f.rest.length := by
  obtain ⟨u, hu, rfl⟩ := h
  have := congrArg List.length hu
  simp only [tokens, List.length_cons, List.length_append, List.length_map] at this ⊢
  omega

theorem repeat_succ (n : Nat) (f : Feed) :
    Nat.repeat advance (n + 1) f = Nat.repeat advance n f.advance := by
  induction n with
  | zero => rfl
  | succ n ih => exact congrArg advance ih

def breaks (f : Feed) : Nat := (f.tokens.takeWhile fun t => t.lexeme matches .newline).length

theorem Sealed.passes_breaks (hf : f.Sealed) :
    f.Passes (.replicate f.breaks .newline) (Nat.repeat advance f.breaks f) ∧
      (Nat.repeat advance f.breaks f).current.lexeme ≠ .newline := by
  obtain ⟨t, rest⟩ := f
  induction rest generalizing t with
  | nil =>
    have ht : t.lexeme = .endOfText := Option.some.inj hf
    have hb : (⟨t, []⟩ : Feed).breaks = 0 := by simp [breaks, tokens, ht]
    rw [hb]
    exact ⟨.refl _, by simp [Nat.repeat, ht]⟩
  | cons u rest ih =>
    by_cases ht : t.lexeme = .newline
    · have hb : (⟨t, u :: rest⟩ : Feed).breaks = (⟨u, rest⟩ : Feed).breaks + 1 := by
        simp [breaks, tokens, ht]
      have hp := hf.passes_advance ht (by simp)
      obtain ⟨hg, hn⟩ := ih u (hf.passes hp)
      rw [hb, repeat_succ, List.replicate_succ]
      exact ⟨hp.trans hg, hn⟩
    · have hb : (⟨t, u :: rest⟩ : Feed).breaks = 0 := by
        simp only [breaks, tokens, List.takeWhile_cons]
        split <;> simp_all
      rw [hb]
      exact ⟨.refl _, ht⟩

end Feed

namespace Parse

variable {α β : Type} {x : Parse α} {k : α → Parse β} {f g : Feed} {a : α} {b : β}

theorem bind_apply (x : Parse α) (k : α → Parse β) (p : Progress) :
    (x >>= k) p = match x p with
      | (.ok a, q) => k a q
      | (.error e, q) => (.error e, q) := by
  change ExceptT.bindCont k (x p).1 (x p).2 = _
  obtain ⟨r, q⟩ := x p
  cases r <;> rfl

theorem bind_eq_ok {p q : Progress} :
    (x >>= k) p = (.ok b, q) ↔ ∃ a p', x p = (.ok a, p') ∧ k a p' = (.ok b, q) := by
  rw [bind_apply]
  obtain ⟨r | a, p'⟩ := x p
  · constructor
    · intro h
      cases h
    · rintro ⟨_, _, h, _⟩
      cases h
  · constructor
    · exact fun h => ⟨a, p', rfl, h⟩
    · rintro ⟨_, _, h, hk⟩
      cases h
      exact hk

def Yields (x : Parse α) (f : Feed) (a : α) (g : Feed) : Prop :=
  ∃ p q : Progress, p.feed = f ∧ q.feed = g ∧ x p = (.ok a, q)

theorem Yields.bind (h : Yields (x >>= k) f b g) :
    ∃ a f', Yields x f a f' ∧ Yields (k a) f' b g := by
  obtain ⟨p, q, hp, hq, h⟩ := h
  obtain ⟨a, p', hx, hk⟩ := bind_eq_ok.mp h
  exact ⟨a, p'.feed, ⟨p, p', hp, rfl, hx⟩, p', q, rfl, hq, hk⟩

theorem Yields.lexeme {k : Lexeme → Parse β} (h : Yields (lexeme >>= k) f b g) :
    Yields (k f.current.lexeme) f b g := by
  obtain ⟨p, q, rfl, hq, h⟩ := h
  exact ⟨p, q, rfl, hq, h⟩

theorem Yields.current {k : Token → Parse β} (h : Yields (current >>= k) f b g) :
    Yields (k f.current) f b g := by
  obtain ⟨p, q, rfl, hq, h⟩ := h
  exact ⟨p, q, rfl, hq, h⟩

theorem yields_pure {c : α} : Yields (pure a) f c g ↔ c = a ∧ g = f := by
  constructor
  · rintro ⟨p, q, rfl, rfl, h⟩
    cases h
    exact ⟨rfl, rfl⟩
  · rintro ⟨rfl, rfl⟩
    exact ⟨.start g, .start g, rfl, rfl, rfl⟩

theorem not_yields_reject {details : String} : ¬ Yields (reject details) f a g := by
  rintro ⟨p, q, _, _, h⟩
  cases h

theorem not_yields_reject_bind {details : String} : ¬ Yields (reject details >>= k) f b g :=
  fun h => let ⟨_, _, hx, _⟩ := h.bind; not_yields_reject hx

theorem not_yields_exhausted : ¬ Yields (exhausted : Parse α) f a g := by
  rintro ⟨p, q, _, _, h⟩
  cases h

theorem Yields.part (h : Yields (part x) f a g) : Yields x f a g := by
  obtain ⟨p, q, rfl, rfl, h⟩ := h
  rw [Parse.part] at h
  generalize hx : x (.start p.feed) = r at h
  obtain ⟨r, q'⟩ := r
  cases h
  exact ⟨.start p.feed, q', rfl, rfl, hx⟩

theorem Yields.partOr {details : String} (h : Yields (partOr details x) f a g) :
    Yields x f a g := by
  obtain ⟨p, q, rfl, rfl, h⟩ := h
  rw [Parse.partOr] at h
  generalize hx : x (.start p.feed) = r at h
  obtain ⟨r | r, q'⟩ := r
  · cases r with
    | invalid e => dsimp only at h; split at h <;> cases h
    | exhausted => cases h
  · cases h
    exact ⟨.start p.feed, q', rfl, rfl, hx⟩

theorem Yields.attempt {o : Option α} (h : Yields (attempt x) f o g) :
    (∃ a, o = some a ∧ Yields x f a g) ∨ o = none ∧ g = f := by
  obtain ⟨p, q, rfl, rfl, h⟩ := h
  rw [Parse.attempt] at h
  generalize hx : x (.start p.feed) = r at h
  obtain ⟨r | a, q'⟩ := r
  · cases r with
    | invalid e => cases h; exact .inr ⟨rfl, rfl⟩
    | exhausted => cases h
  · cases h
    exact .inl ⟨a, rfl, .start p.feed, q', rfl, rfl, hx⟩

theorem Yields.newlines {c : Nat} (h : Yields newlines f c g) :
    c = f.breaks ∧ g = Nat.repeat Feed.advance f.breaks f := by
  obtain ⟨p, q, rfl, rfl, h⟩ := h
  cases h
  exact ⟨rfl, rfl⟩

/-- An operand behind an operator of the level. An exponent may carry a sign. -/
def rightOperand (fuel : Nat) : Level → Parse Node
  | .power => factor fuel
  | level => operand fuel level

theorem moreOperands_succ (n : Nat) (level : Level) (left : Node) :
    moreOperands (n + 1) level left = (do
      match level.op? (← lexeme) with
      | none => return left
      | some op =>
        advance
        let right ← part (rightOperand n level)
        moreOperands n level (joined op left right)) := by
  cases level <;> rw [moreOperands] <;> first | rfl | simp

/-- Whatever `x` yields from the feed `f` stands to the lexemes it has passed as `φ` says. -/
def Accounts (f : Feed) (x : Parse α) (φ : α → List Lexeme → Prop) : Prop :=
  f.Sealed → ∀ {a g}, Yields x f a g → ∃ ls, f.Passes ls g ∧ φ a ls

namespace Accounts

variable {φ χ : α → List Lexeme → Prop} {ψ : β → List Lexeme → Prop} {l : Lexeme}

theorem mono (hx : Accounts f x φ) (h : ∀ a ls, φ a ls → χ a ls) : Accounts f x χ := by
  intro hf a g hy
  obtain ⟨ls, hp, ha⟩ := hx hf hy
  exact ⟨ls, hp, h a ls ha⟩

theorem bind (hx : Accounts f x φ)
    (hk : ∀ a u f', φ a u → Accounts f' (k a) fun b v => ψ b (u ++ v)) :
    Accounts f (x >>= k) ψ := by
  intro hf b g hy
  obtain ⟨a, f', hxy, hky⟩ := hy.bind
  obtain ⟨u, hu, ha⟩ := hx hf hxy
  obtain ⟨v, hv, hb⟩ := hk a u f' ha (hf.passes hu) hky
  exact ⟨u ++ v, hu.trans hv, hb⟩

theorem ret (h : φ a []) : Accounts f (pure a) φ := by
  intro _ a' g hy
  obtain ⟨rfl, rfl⟩ := yields_pure.mp hy
  exact ⟨[], .refl g, h⟩

theorem reject {details : String} : Accounts f (reject details) φ :=
  fun _ _ _ hy => (not_yields_reject hy).elim

theorem reject_bind {details : String} {k : α → Parse β} :
    Accounts f (Parse.reject details >>= k) ψ :=
  fun _ _ _ hy => (not_yields_reject_bind hy).elim

theorem exhausted : Accounts f exhausted φ := fun _ _ _ hy => (not_yields_exhausted hy).elim

theorem part (hx : Accounts f x φ) : Accounts f (part x) φ := fun hf _ _ hy => hx hf hy.part

theorem partOr {details : String} (hx : Accounts f x φ) : Accounts f (partOr details x) φ :=
  fun hf _ _ hy => hx hf hy.partOr

theorem lexeme {k : Lexeme → Parse β} (h : Accounts f (k f.current.lexeme) ψ) :
    Accounts f (Parse.lexeme >>= k) ψ :=
  fun hf _ _ hy => h hf hy.lexeme

theorem current {k : Token → Parse β} (h : Accounts f (k f.current) ψ) :
    Accounts f (Parse.current >>= k) ψ :=
  fun hf _ _ hy => h hf hy.current

theorem advance (hl : f.current.lexeme = l) (hne : l ≠ .endOfText) :
    Accounts f advance fun _ ls => ls = [l] := by
  rintro hf _ _ ⟨p, q, rfl, rfl, h⟩
  cases h
  exact ⟨[l], hf.passes_advance hl hne, rfl⟩

theorem pass {k : Unit → Parse β} (hl : f.current.lexeme = l) (hne : l ≠ .endOfText)
    (hk : ∀ f', Accounts f' (k ()) fun b v => ψ b (l :: v)) :
    Accounts f (Parse.advance >>= k) ψ := by
  refine (advance hl hne).bind fun _ u f' hu => ?_
  subst hu
  exact hk f'

theorem attempt (hx : Accounts f x φ) :
    Accounts f (attempt x) fun o ls => (∃ a, o = some a ∧ φ a ls) ∨ o = none ∧ ls = [] := by
  intro hf o g hy
  obtain ⟨a, rfl, hxy⟩ | ⟨rfl, rfl⟩ := hy.attempt
  · obtain ⟨ls, hp, ha⟩ := hx hf hxy
    exact ⟨ls, hp, .inl ⟨a, rfl, ha⟩⟩
  · exact ⟨[], .refl g, .inr ⟨rfl, rfl⟩⟩

theorem newlines : Accounts f newlines fun c ls => ls = .replicate c .newline := by
  intro hf c g hy
  obtain ⟨rfl, rfl⟩ := hy.newlines
  exact ⟨_, hf.passes_breaks.1, rfl⟩

theorem keyword {w : Keyword} : Accounts f (keyword w) fun _ ls => ls = [.keyword w] := by
  refine .lexeme ?_
  split
  · next v hv =>
    split
    · next hw => exact .advance (hw ▸ hv) (by simp)
    · exact .reject
  · exact .reject

theorem ifKeyword {w : Keyword} {y : Parse α}
    (hx : f.current.lexeme = .keyword w → Accounts f x φ) (hy : Accounts f y φ) :
    Accounts f (do if ← atKeyword w then x else y) φ := by
  rw [atKeyword, bind_assoc]
  refine .lexeme ?_
  split
  · next v hv =>
    rw [pure_bind]
    split
    · next hw => exact hx (by simpa [hv] using hw)
    · exact hy
  · rw [pure_bind]
    exact hy

theorem identifier {details : String} :
    Accounts f (identifier details) fun i ls => ls = [.name i.1] := by
  refine .current ?_
  split
  · next s hs => exact .pass hs (by simp) fun f' => .ret rfl
  · exact .reject

theorem assignSign : Accounts f assignSign fun _ ls => ls = [.assign] := by
  refine .lexeme ?_
  split
  · next hl => exact .advance hl (by simp)
  · exact .reject

theorem openParams {named : Bool} :
    Accounts f (openParams named) fun _ ls => ls = [.openParen] := by
  refine .lexeme ?_
  split
  · next hl => exact .advance hl (by simp)
  · exact .reject

end Accounts

end Parse
end Think
