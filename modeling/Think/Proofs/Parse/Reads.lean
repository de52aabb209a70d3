import Mathlib.Order.Filter.AtTopBot.Basic
import Think.Proofs.Parse.Yield

/-! # What a production reads

`Reads x i o P` says that the production `x` turns the lexemes `i` into a result with the property
`P` and leaves the lexemes `o`, wherever they stand in the text. Recursive productions are said to
read what they read with all large enough fuel.
-/

namespace Think

namespace Feed

variable {f : Feed} {l : Lexeme} {i : List Lexeme}

def lexemes (f : Feed) : List Lexeme := f.tokens.map (·.lexeme)

theorem current_of_lexemes (h : f.lexemes = l :: i) : f.current.lexeme = l :=
  (List.cons.inj h).1

theorem advance_lexemes (h : f.lexemes = l :: i) (hi : i ≠ []) : f.advance.lexemes = i := by
  obtain ⟨t, rest⟩ := f
  obtain ⟨-, rfl⟩ := List.cons.inj h
  cases rest with
  | nil => exact (hi rfl).elim
  | cons u rest => rfl

theorem breaks_of_lexemes {k : Nat} (h : f.lexemes = .replicate k .newline ++ l :: i)
    (hl : l ≠ .newline) :
    f.breaks = k ∧ (Nat.repeat advance f.breaks f).lexemes = l :: i := by
  induction k generalizing f with
  | zero =>
    have hb : f.breaks = 0 := by
      have hc := current_of_lexemes h
      simp only [breaks, tokens, List.takeWhile_cons]
      split <;> simp_all
    rw [hb]
    exact ⟨rfl, h⟩
  | succ k ih =>
    have ha := advance_lexemes h (by simp)
    have hb : f.breaks = f.advance.breaks + 1 := by
      obtain ⟨t, rest⟩ := f
      have hc : t.lexeme = .newline := current_of_lexemes h
      cases rest with
      | nil => simp [lexemes, tokens, List.replicate_succ] at h
      | cons u rest => simp [breaks, advance, tokens, hc]
    obtain ⟨hk, hr⟩ := ih ha
    rw [hb, repeat_succ]
    exact ⟨by rw [hk], hr⟩

end Feed

namespace Parse

variable {α β : Type} {x : Parse α} {k : α → Parse β} {i m o : List Lexeme} {l : Lexeme}
  {P Q : α → Prop} {R : β → Prop}

def Reads (x : Parse α) (i o : List Lexeme) (P : α → Prop) : Prop :=
  ∀ p : Progress, p.feed.lexemes = i → ∃ a q, x p = (.ok a, q) ∧ q.feed.lexemes = o ∧ P a

namespace Reads

theorem mono (hx : Reads x i o P) (h : ∀ a, P a → Q a) : Reads x i o Q := by
  intro p hp
  obtain ⟨a, q, he, ho, ha⟩ := hx p hp
  exact ⟨a, q, he, ho, h a ha⟩

theorem bind (hx : Reads x i m P) (hk : ∀ a, P a → Reads (k a) m o R) : Reads (x >>= k) i o R := by
  intro p hp
  obtain ⟨a, q, he, hm, ha⟩ := hx p hp
  obtain ⟨b, q', he', ho, hb⟩ := hk a ha q hm
  exact ⟨b, q', bind_eq_ok.mpr ⟨a, q, he, he'⟩, ho, hb⟩

theorem ret {a : α} (h : P a) : Reads (pure a) i i P := fun p hp => ⟨a, p, rfl, hp, h⟩

theorem lexeme {k : Lexeme → Parse β} (h : Reads (k l) (l :: i) o R) :
    Reads (Parse.lexeme >>= k) (l :: i) o R := by
  intro p hp
  have hl := Feed.current_of_lexemes hp
  obtain ⟨b, q, he, ho, hb⟩ := h p hp
  exact ⟨b, q, by rw [← he, ← hl]; rfl, ho, hb⟩

theorem current {k : Token → Parse β}
    (h : ∀ t : Token, t.lexeme = l → Reads (k t) (l :: i) o R) :
    Reads (Parse.current >>= k) (l :: i) o R :=
  fun p hp => h p.feed.current (Feed.current_of_lexemes hp) p hp

theorem current_any {k : Token → Parse β} (h : ∀ t : Token, Reads (k t) i o R) :
    Reads (Parse.current >>= k) i o R :=
  fun p hp => h p.feed.current p hp

theorem advance (hi : i ≠ []) : Reads advance (l :: i) i fun _ => True :=
  fun _ hp => ⟨(), _, rfl, Feed.advance_lexemes hp hi, trivial⟩

theorem pass {k : Unit → Parse β} (hi : i ≠ []) (h : Reads (k ()) i o R) :
    Reads (Parse.advance >>= k) (l :: i) o R :=
  (advance hi).bind fun _ _ => h

theorem part (hx : Reads x i o P) : Reads (part x) i o P := by
  intro p hp
  obtain ⟨a, q, he, ho, ha⟩ := hx (.start p.feed) hp
  exact ⟨a, Progress.keep p q, by rw [Parse.part, he], ho, ha⟩

theorem partOr {details : String} (hx : Reads x i o P) : Reads (partOr details x) i o P := by
  intro p hp
  obtain ⟨a, q, he, ho, ha⟩ := hx (.start p.feed) hp
  exact ⟨a, Progress.keep p q, by rw [Parse.partOr, he], ho, ha⟩

theorem attempt (hx : Reads x i o P) :
    Reads (attempt x) i o fun r => ∃ a, r = some a ∧ P a := by
  intro p hp
  obtain ⟨a, q, he, ho, ha⟩ := hx (.start p.feed) hp
  exact ⟨some a, Progress.keep p q, by rw [Parse.attempt, he], ho, a, rfl, ha⟩

theorem newlines {k : Nat} (hl : l ≠ .newline) :
    Reads newlines (.replicate k .newline ++ l :: i) (l :: i) (· = k) := by
  intro p hp
  obtain ⟨hk, hr⟩ := Feed.breaks_of_lexemes hp hl
  exact ⟨p.feed.breaks, _, rfl, hr, hk⟩

theorem keyword {w : Keyword} (hi : i ≠ []) :
    Reads (keyword w) (.keyword w :: i) i fun _ => True := by
  apply Reads.lexeme
  dsimp only
  rw [if_pos rfl]
  exact advance hi

theorem ifKeyword {w : Keyword} {x y : Parse α} (hx : Reads x (.keyword w :: i) o P) :
    Reads (do if ← atKeyword w then x else y) (.keyword w :: i) o P := by
  rw [atKeyword, bind_assoc]
  apply Reads.lexeme
  dsimp only
  rw [pure_bind, if_pos (decide_eq_true rfl)]
  exact hx

theorem ifNotKeyword {w : Keyword} {x y : Parse α} (hl : l ≠ .keyword w)
    (hy : Reads y (l :: i) o P) : Reads (do if ← atKeyword w then x else y) (l :: i) o P := by
  rw [atKeyword, bind_assoc]
  apply Reads.lexeme
  split
  · next v =>
    rw [pure_bind, if_neg]
    · exact hy
    · simpa using hl
  · rw [pure_bind]
    exact hy

theorem identifier {name details : String} (hi : i ≠ []) :
    Reads (identifier details) (.name name :: i) i fun r => r.1 = name := by
  apply Reads.current
  intro t ht
  rw [ht]
  exact .pass hi (.ret rfl)

theorem optionalVar_absent (hl : l.isVarText = false) :
    Reads optionalVar (l :: i) (l :: i) fun _ => True := by
  apply Reads.lexeme
  rw [if_neg (by simp [hl])]
  exact .ret trivial

theorem optionalVar_present (hl : l.isVarText = true) (hi : i ≠ []) :
    Reads optionalVar (l :: i) i fun _ => True := by
  apply Reads.lexeme
  rw [if_pos hl]
  exact advance hi

theorem assignSign (hi : i ≠ []) : Reads assignSign (.assign :: i) i fun _ => True :=
  .lexeme (advance hi)

theorem openParams {named : Bool} (hi : i ≠ []) :
    Reads (openParams named) (.openParen :: i) i fun _ => True :=
  .lexeme (advance hi)

end Reads

def Fails (x : Parse α) (l : Lexeme) : Prop :=
  ∀ p : Progress, p.feed.current.lexeme = l → ∃ e q, x p = (.error (.invalid e), q)

namespace Fails

theorem bind (hx : Fails x l) : Fails (x >>= k) l := by
  intro p hp
  obtain ⟨e, q, he⟩ := hx p hp
  exact ⟨e, q, by rw [bind_apply, he]⟩

theorem reject {details : String} : Fails (Parse.reject details : Parse α) l :=
  fun _ _ => ⟨_, _, rfl⟩

theorem lexeme {k : Lexeme → Parse β} (h : Fails (k l) l) : Fails (Parse.lexeme >>= k) l := by
  intro p hp
  obtain ⟨e, q, he⟩ := h p hp
  exact ⟨e, q, by rw [← he, ← hp]; rfl⟩

theorem current {k : Token → Parse β} (h : ∀ t : Token, t.lexeme = l → Fails (k t) l) :
    Fails (Parse.current >>= k) l :=
  fun p hp => h p.feed.current hp p hp

theorem part (hx : Fails x l) : Fails (part x) l := by
  intro p hp
  obtain ⟨e, q, he⟩ := hx (.start p.feed) hp
  exact ⟨e, _, by rw [Parse.part, he]⟩

theorem partOr {details : String} (hx : Fails x l) : Fails (partOr details x) l := by
  intro p hp
  obtain ⟨e, q, he⟩ := hx (.start p.feed) hp
  by_cases hq : q.advances = 0
  · exact ⟨_, _, by rw [Parse.partOr, he]; dsimp only; rw [if_pos hq]; rfl⟩
  · exact ⟨_, _, by rw [Parse.partOr, he]; dsimp only; rw [if_neg hq]⟩

theorem attempt (hx : Fails x l) : Reads (attempt x) (l :: i) (l :: i) (· = none) := by
  intro p hp
  obtain ⟨e, q, he⟩ := hx (.start p.feed) (Feed.current_of_lexemes hp)
  exact ⟨none, Progress.giveUp p q, by rw [Parse.attempt, he], hp, rfl⟩

end Fails

open Filter

/-- A property of large fuels may be shown for their successors. -/
theorem eventually_succ {Q : Nat → Prop} : (∀ᶠ n in atTop, Q (n + 1)) ↔ ∀ᶠ n in atTop, Q n := by
  simp only [eventually_atTop]
  constructor
  · rintro ⟨N, h⟩
    refine ⟨N + 1, fun n hn => ?_⟩
    obtain ⟨m, rfl⟩ := Nat.exists_eq_add_of_le' hn
    exact h (m + N) (by omega)
  · rintro ⟨N, h⟩
    exact ⟨N, fun n hn => h (n + 1) (by omega)⟩

end Parse
end Think
