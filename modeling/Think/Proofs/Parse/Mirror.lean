import Think.Proofs.Parse.AtEnd

/-! # Reading a text that goes on

One production is followed on a text and, at the same time, on several texts that read like it for
a while. Either all of the texts carry the same lexemes, or the others go on with a line break
where the first one ends.
-/

namespace Think

/-- `Absorbs bs n n'` says of two shapes that `n'` is `n` with the statements `bs` put behind the
block that `n` ends with, or that its last statement ends with. -/
inductive Node.Absorbs (bs : List Node) : Node → Node → Prop
  | block {cs c ns} :
      Absorbs bs (.branch default (cs ++ [(c, .list default ns, true)]) none)
        (.branch default (cs ++ [(c, .list default (ns ++ bs), true)]) none)
  | case {cs c n n' k} : Absorbs bs n n' →
      Absorbs bs (.branch default (cs ++ [(c, n, k)]) none)
        (.branch default (cs ++ [(c, n', k)]) none)
  | fallback {cs n n'} : Absorbs bs n n' →
      Absorbs bs (.branch default cs (some (n, false))) (.branch default cs (some (n', false)))
  | last {ns n n'} : Absorbs bs n n' →
      Absorbs bs (.list default (ns ++ [n])) (.list default (ns ++ [n']))
  | assign {name n n'} : Absorbs bs n n' →
      Absorbs bs (.assign default name n) (.assign default name n')
  | right {op l n n'} : Absorbs bs n n' →
      Absorbs bs (.binary default op l n) (.binary default op l n')
  | unary {op n n'} : Absorbs bs n n' → Absorbs bs (.unary default op n) (.unary default op n')
  | forLoop {name x y z n n'} : Absorbs bs n n' →
      Absorbs bs (.forLoop default name x y z n false) (.forLoop default name x y z n' false)
  | whileLoop {c n n'} : Absorbs bs n n' →
      Absorbs bs (.whileLoop default c n false) (.whileLoop default c n' false)
  | arrow {name params n n'} : Absorbs bs n n' →
      Absorbs bs (.function default name params n true) (.function default name params n' true)
  | ret {n n'} : Absorbs bs n n' → Absorbs bs (.ret default (some n)) (.ret default (some n'))
  | think {n n'} : Absorbs bs n n' →
      Absorbs bs (.think default (some n)) (.think default (some n'))

namespace Node.Absorbs

variable {bs : List Node} {n n' : Node}

theorem only (h : Absorbs bs n n') : Absorbs bs (.list default [n]) (.list default [n']) := by
  rw [← List.nil_append [n], ← List.nil_append [n']]
  exact .last h

theorem cons {ns ns' : List Node} (h : Absorbs bs (.list default ns) (.list default ns')) :
    Absorbs bs (.list default (n :: ns)) (.list default (n :: ns')) := by
  cases h with
  | last h =>
    rw [← List.cons_append, ← List.cons_append]
    exact .last h

theorem cons_case {c : Node × Node × Bool} {cs cs' : List (Node × Node × Bool)}
    {f f' : Option (Node × Bool)} (h : Absorbs bs (.branch default cs f) (.branch default cs' f')) :
    Absorbs bs (.branch default (c :: cs) f) (.branch default (c :: cs') f') := by
  cases h with
  | block =>
    rw [← List.cons_append, ← List.cons_append]
    exact .block
  | case h =>
    rw [← List.cons_append, ← List.cons_append]
    exact .case h
  | fallback h => exact .fallback h

theorem only_case {c : Node} {k : Bool} (h : Absorbs bs n n') :
    Absorbs bs (.branch default [(c, n, k)] none) (.branch default [(c, n', k)] none) := by
  rw [← List.nil_append [(c, n, k)], ← List.nil_append [(c, n', k)]]
  exact .case h

theorem only_block {c : Node} {ns : List Node} :
    Absorbs bs (.branch default [(c, .list default ns, true)] none)
      (.branch default [(c, .list default (ns ++ bs), true)] none) := by
  rw [← List.nil_append [(c, Node.list default ns, true)],
    ← List.nil_append [(c, Node.list default (ns ++ bs), true)]]
  exact .block

end Node.Absorbs

namespace Lexeme

def isBreak : Lexeme → Bool
  | newline => true
  | _ => false

def isKeyword (word : Keyword) : Lexeme → Bool
  | keyword w => w = word
  | _ => false

def isAssign : Lexeme → Bool
  | assign => true
  | _ => false

def isOpenParen : Lexeme → Bool
  | openParen => true
  | _ => false

end Lexeme

namespace Feed

theorem lexemes_advance_eq {f g : Feed} (h : g.lexemes = f.lexemes) :
    g.advance.lexemes = f.advance.lexemes := by
  obtain ⟨t, rest⟩ := f
  obtain ⟨u, rest'⟩ := g
  cases rest <;> cases rest' <;> simp_all [lexemes, tokens, advance]

theorem breaks_eq {f g : Feed} (h : g.lexemes = f.lexemes) : g.breaks = f.breaks := by
  have hcount : ∀ e : Feed, e.breaks = (e.lexemes.takeWhile Lexeme.isBreak).length := by
    intro e
    rw [lexemes, List.takeWhile_map, List.length_map]
    rfl
  rw [hcount, hcount, h]

theorem lexemes_repeat_eq {f g : Feed} (h : g.lexemes = f.lexemes) (n : Nat) :
    (Nat.repeat advance n g).lexemes = (Nat.repeat advance n f).lexemes := by
  induction n with
  | zero => exact h
  | succ n ih => exact lexemes_advance_eq ih

end Feed

namespace Parse

variable {ι α β : Type}

/-- What may stand behind a line break that a text goes on with. -/
structure Continuation where
  tail : List Lexeme
  /-- The statements that stand in the tail. -/
  added : List Node
  /-- What is left behind them. -/
  after : List Lexeme
  gathers : ∀ k m p, p.feed.lexemes = .replicate (k + 1) .newline ++ tail →
    (moreStatements m p).1 = .error .exhausted ∨
      ∃ ns q, moreStatements m p = (.ok ns, q) ∧ Node.shapes ns = added ∧ q.feed.lexemes = after
  after_eq : after = [.endOfText] ∨ after = [.keyword .endKw, .endOfText]

/-- A text that goes on in its own way for each of several readers. `whole` is the text before its
end. -/
structure Seam (ι : Type) where
  whole : List Lexeme
  next : ι → Continuation
  noEnd : .endOfText ∉ whole
  /-- Whatever opens a form in the text can be read as such. -/
  lively : ∀ ls l, l :: ls <:+ whole → l.opens → ∀ n p, p.feed.lexemes = l :: ls ++ [.endOfText] →
    ∀ e q, atom n p ≠ (.error (.invalid e), q)

namespace Seam

abbrev tail (S : Seam ι) (i : ι) : List Lexeme := (S.next i).tail

abbrev added (S : Seam ι) (i : ι) : List Node := (S.next i).added

abbrev after (S : Seam ι) (i : ι) : List Lexeme := (S.next i).after

end Seam

/-- How the feeds of the readers stand to the one of the first text. Without a seam they carry the
same lexemes. -/
def Beside : Option (Seam ι) → Feed → (ι → Feed) → Prop
  | none, f, g => ∀ i, (g i).lexemes = f.lexemes
  | some S, f, g => ∃ ls, ls <:+ S.whole ∧ f.lexemes = ls ++ [.endOfText] ∧
      ∀ i, (g i).lexemes = ls ++ .newline :: S.tail i

structure Common (M : Option (Seam ι)) (f : Feed) (g : ι → Feed) : Prop where
  lexeme : ∀ i, (g i).current.lexeme = f.current.lexeme
  advance : Beside M f.advance fun i => (g i).advance
  inside : M = none ∨ f.current.lexeme ≠ .endOfText

/-- The first reader is at the end of its text, the others at the line break behind it. -/
structure Edge (S : Seam ι) (f : Feed) (g : ι → Feed) : Prop where
  here : f.AtEnd
  there : ∀ i, (g i).lexemes = .newline :: S.tail i

namespace Beside

variable {M : Option (Seam ι)} {S : Seam ι} {f : Feed} {g : ι → Feed}

theorem view (h : Beside M f g) : Common M f g ∨ ∃ S, M = some S ∧ Edge S f g := by
  cases M with
  | none =>
    refine .inl ⟨fun i => ?_, fun i => Feed.lexemes_advance_eq (h i), .inl rfl⟩
    exact (List.cons.inj (h i)).1
  | some S =>
    obtain ⟨ls, hls, hf, hg⟩ := h
    cases ls with
    | nil => exact .inr ⟨S, rfl, hf, hg⟩
    | cons l ls =>
      have hc := Feed.current_of_lexemes hf
      have hne : l ≠ .endOfText := fun h => S.noEnd (hls.subset (h ▸ List.mem_cons_self))
      refine .inl ⟨fun i => ?_, ⟨ls, (List.suffix_cons l ls).trans hls, ?_, fun i => ?_⟩, .inr ?_⟩
      · rw [hc, Feed.current_of_lexemes (hg i)]
      · exact Feed.advance_lexemes hf (by simp)
      · exact Feed.advance_lexemes (hg i) (by simp)
      · rwa [hc]

end Beside

theorem zero_or_succ (m : ι → Nat) : (∃ i, m i = 0) ∨ ∃ m' : ι → Nat, m = fun i => m' i + 1 := by
  by_cases h : ∃ i, m i = 0
  · exact .inl h
  · refine .inr ⟨fun i => m i - 1, funext fun i => ?_⟩
    exact (Nat.sub_add_cancel (Nat.pos_of_ne_zero (not_exists.mp h i))).symm

theorem exists_breaks (ls : List Lexeme) :
    ∃ k ms, ls = .replicate k .newline ++ ms ∧ ∀ m ∈ ms.head?, m ≠ .newline := by
  induction ls with
  | nil => exact ⟨0, [], rfl, by simp⟩
  | cons l ls ih =>
    by_cases hl : l = .newline
    · obtain ⟨k, ms, rfl, hms⟩ := ih
      exact ⟨k + 1, ms, by rw [hl, List.replicate_succ, List.cons_append], hms⟩
    · exact ⟨0, l :: ls, rfl, by simpa using hl⟩

namespace Beside

variable {M : Option (Seam ι)} {S : Seam ι} {f : Feed} {g : ι → Feed}

/-- Behind the line breaks the readers are still together, unless the breaks are the last of the
text. -/
theorem breaks (h : Beside M f g) :
    ((∀ i, (g i).breaks = f.breaks) ∧
      Beside M (Nat.repeat Feed.advance f.breaks f)
        (fun i => Nat.repeat Feed.advance f.breaks (g i)) ∧
      (M = none ∨ (Nat.repeat Feed.advance f.breaks f).current.lexeme ≠ .endOfText)) ∨
    ∃ S, M = some S ∧ (Nat.repeat Feed.advance f.breaks f).AtEnd ∧
      ∀ i, ∃ k, (g i).lexemes = .replicate (k + 1) .newline ++ S.tail i := by
  cases M with
  | none =>
    refine .inl ⟨fun i => Feed.breaks_eq (h i), fun i => ?_, .inl rfl⟩
    exact Feed.lexemes_repeat_eq (h i) _
  | some S =>
    obtain ⟨ls, hls, hf, hg⟩ := h
    obtain ⟨k, ms, rfl, hms⟩ := exists_breaks ls
    cases ms with
    | nil =>
      rw [List.append_nil] at hf hg
      refine .inr ⟨S, rfl, (Feed.breaks_of_lexemes hf (by simp)).2, fun i => ⟨k, ?_⟩⟩
      rw [hg i, List.replicate_succ', List.append_assoc]
      rfl
    | cons l ms =>
      have hl : l ≠ .newline := hms l rfl
      rw [List.append_assoc] at hf
      have hsuffix : l :: ms <:+ S.whole := (List.suffix_append _ _).trans hls
      have hne : l ≠ .endOfText := fun h => S.noEnd (hsuffix.subset (h ▸ List.mem_cons_self))
      obtain ⟨hk, hrest⟩ := Feed.breaks_of_lexemes hf hl
      have hthere : ∀ i, (g i).breaks = k ∧
          (Nat.repeat Feed.advance (g i).breaks (g i)).lexemes =
            l :: ms ++ .newline :: S.tail i := by
        intro i
        have hi := hg i
        rw [List.append_assoc] at hi
        exact Feed.breaks_of_lexemes hi hl
      refine .inl ⟨fun i => (hthere i).1.trans hk.symm, ⟨l :: ms, hsuffix, hrest, fun i => ?_⟩,
        .inr ?_⟩
      · rw [hk, ← (hthere i).1]
        exact (hthere i).2
      · rwa [Feed.current_of_lexemes hrest]

end Beside

/-- How the readers may end when the first one ends with `r`. Unless `strict` holds, nothing is
said when the first one fails. -/
inductive Outcome (strict : Prop) (Post : α → (ι → α) → Feed → (ι → Feed) → Prop) :
    Except Rejection α × Progress → (ι → Except Rejection α × Progress) → Prop
  | exhausted {p rs} : Outcome strict Post (.error .exhausted, p) rs
  | elsewhere {r rs} (i : ι) (q : Progress) : rs i = (.error .exhausted, q) →
      Outcome strict Post r rs
  | ok {a p rs} (as : ι → α) (qs : ι → Progress) : (∀ i, rs i = (.ok (as i), qs i)) →
      Post a as p.feed (fun i => (qs i).feed) → Outcome strict Post (.ok a, p) rs
  | invalid {e p rs} : (strict → ∀ i, ∃ e q, rs i = (.error (.invalid e), q)) →
      Outcome strict Post (.error (.invalid e), p) rs

def Mirrors (strict : Prop) (Post : α → (ι → α) → Feed → (ι → Feed) → Prop) (x : Parse α)
    (y : ι → Parse α) (p : Progress) (q : ι → Progress) : Prop :=
  Outcome strict Post (x p) fun i => y i (q i)

namespace Mirrors

variable {s : Prop} {P : α → (ι → α) → Feed → (ι → Feed) → Prop}
  {Q : β → (ι → β) → Feed → (ι → Feed) → Prop} {x : Parse α} {y : ι → Parse α}
  {k : α → Parse β} {l : ι → α → Parse β} {p : Progress} {q : ι → Progress}
  {M : Option (Seam ι)} {S : Seam ι}

theorem mono {t : Prop} {P' : α → (ι → α) → Feed → (ι → Feed) → Prop} (h : Mirrors s P x y p q)
    (hs : t → s) (hP : ∀ a as f g, P a as f g → P' a as f g) : Mirrors t P' x y p q := by
  unfold Mirrors at h ⊢
  generalize x p = r at h ⊢
  generalize (fun i => y i (q i)) = rs at h ⊢
  cases h with
  | exhausted => exact .exhausted
  | elsewhere i q' h => exact .elsewhere i q' h
  | ok as qs h hp => exact .ok as qs h (hP _ _ _ _ hp)
  | invalid h => exact .invalid fun ht => h (hs ht)

/-- If the first reader ends with something, so do the others, unless one of them is exhausted. -/
theorem exhausted_or_ok {a : α} {p' : Progress} (h : Mirrors s P x y p q) (hx : x p = (.ok a, p')) :
    (∃ i q', y i (q i) = (.error .exhausted, q')) ∨
      ∃ (as : ι → α) (qs : ι → Progress), (∀ i, y i (q i) = (.ok (as i), qs i)) ∧
        P a as p'.feed fun i => (qs i).feed := by
  unfold Mirrors at h
  rw [hx] at h
  cases h with
  | elsewhere i q' h => exact .inl ⟨i, q', h⟩
  | ok as qs h hp => exact .inr ⟨as, qs, h, hp⟩

theorem loosen (h : Mirrors True P x y p q) : Mirrors s P x y p q :=
  h.mono (fun _ => trivial) fun _ _ _ _ => id

theorem bind (hx : Mirrors s P x y p q)
    (hk : ∀ a as p' q', P a as p'.feed (fun i => (q' i).feed) →
      Mirrors s Q (k a) (fun i => l i (as i)) p' q') :
    Mirrors s Q (x >>= k) (fun i => y i >>= l i) p q := by
  unfold Mirrors at hx ⊢
  simp only [bind_apply]
  generalize x p = r at hx ⊢
  generalize hrs : (fun i => y i (q i)) = rs at hx
  have hrs' : ∀ i, y i (q i) = rs i := fun i => congrFun hrs i
  simp only [hrs']
  cases hx with
  | exhausted => exact .exhausted
  | elsewhere i q' h => exact .elsewhere i _ (by rw [h])
  | ok as qs h hp =>
    simp only [h]
    exact hk _ as _ qs hp
  | invalid h =>
    refine .invalid fun hs i => ?_
    obtain ⟨e, q', he⟩ := h hs i
    exact ⟨e, q', by rw [he]⟩

theorem ret {a : α} {as : ι → α} (h : P a as p.feed fun i => (q i).feed) :
    Mirrors s P (pure a) (fun i => pure (as i)) p q :=
  .ok as q (fun _ => rfl) h

theorem reject {details : String} {details' : ι → String} :
    Mirrors s P (Parse.reject details) (fun i => Parse.reject (details' i)) p q :=
  .invalid fun _ _ => ⟨_, _, rfl⟩

theorem reject_bind {details : String} {details' : ι → String} :
    Mirrors s Q (Parse.reject details >>= k) (fun i => Parse.reject (details' i) >>= l i) p q :=
  bind (P := fun _ _ _ _ => False) reject fun _ _ _ _ h => h.elim

theorem zero_left : Mirrors s P (Parse.exhausted) y p q := .exhausted

theorem zero_right (i : ι) (h : y i = Parse.exhausted) : Mirrors s P x y p q :=
  .elsewhere i (q i) (by rw [h]; rfl)

/-- A reader that fails need not be followed unless the reading is strict. -/
theorem of_error (hs : ¬ s) (h : Errs x p) : Mirrors s P x y p q := by
  obtain ⟨e, he⟩ := h
  rcases hx : x p with ⟨r, p'⟩
  rw [hx] at he
  cases he
  unfold Mirrors
  rw [hx]
  cases e with
  | exhausted => exact .exhausted
  | invalid e => exact .invalid fun h => (hs h).elim

theorem strict (h : Mirrors s P x y p q) (hx : ∀ e p', x p ≠ (.error (.invalid e), p')) :
    Mirrors True P x y p q := by
  unfold Mirrors at h ⊢
  generalize x p = r at h hx ⊢
  generalize (fun i => y i (q i)) = rs at h ⊢
  cases h with
  | exhausted => exact .exhausted
  | elsewhere i q' h => exact .elsewhere i q' h
  | ok as qs h hp => exact .ok as qs h hp
  | invalid h => exact (hx _ _ rfl).elim

theorem part (h : Mirrors s P x y (.start p.feed) fun i => .start (q i).feed) :
    Mirrors s P (part x) (fun i => part (y i)) p q := by
  unfold Mirrors at h ⊢
  simp only [Parse.part]
  generalize x (.start p.feed) = r at h ⊢
  generalize hrs : (fun i => y i (.start (q i).feed)) = rs at h
  have hrs' : ∀ i, y i (.start (q i).feed) = rs i := fun i => congrFun hrs i
  simp only [hrs']
  cases h with
  | exhausted => exact .exhausted
  | elsewhere i q' h => exact .elsewhere i _ (by rw [h])
  | ok as qs h hp => exact .ok as (fun i => Progress.keep (q i) (qs i)) (fun i => by rw [h i]) hp
  | invalid h =>
    refine .invalid fun hs i => ?_
    obtain ⟨e, q', he⟩ := h hs i
    exact ⟨e, _, by rw [he]⟩

theorem partOr {details : String} (h : Mirrors s P x y (.start p.feed) fun i => .start (q i).feed) :
    Mirrors s P (partOr details x) (fun i => partOr details (y i)) p q := by
  unfold Mirrors at h ⊢
  simp only [Parse.partOr]
  generalize x (.start p.feed) = r at h ⊢
  generalize hrs : (fun i => y i (.start (q i).feed)) = rs at h
  have hrs' : ∀ i, y i (.start (q i).feed) = rs i := fun i => congrFun hrs i
  simp only [hrs']
  have hinvalid : ∀ (q₀ : Progress) (e : Diagnostic) (q' : Progress), ∃ e' q'',
      (if q'.advances = 0 then
        ((.error (errorAt q'.feed.current details), Progress.keep q₀ q') :
          Except Rejection α × Progress)
      else (.error (.invalid e), Progress.keep q₀ q')) = (.error (.invalid e'), q'') := by
    intro q₀ e q'
    split
    · exact ⟨_, _, rfl⟩
    · exact ⟨_, _, rfl⟩
  cases h with
  | exhausted => exact .exhausted
  | elsewhere i q' h => exact .elsewhere i _ (by rw [h])
  | ok as qs h hp => exact .ok as (fun i => Progress.keep (q i) (qs i)) (fun i => by rw [h i]) hp
  | @invalid e p' _ h =>
    obtain ⟨e', p'', he⟩ := hinvalid p e p'
    simp only [he]
    refine .invalid fun hs i => ?_
    obtain ⟨e₁, q₁, h₁⟩ := h hs i
    rw [h₁]
    exact hinvalid (q i) e₁ q₁

/-- A strict part may be attempted: the readers give it up together. -/
theorem attempt (h : Mirrors True P x y (.start p.feed) fun i => .start (q i).feed) :
    Mirrors s (fun o os f g =>
        (∃ a as, o = some a ∧ (os = fun i => some (as i)) ∧ P a as f g) ∨
          o = none ∧ (os = fun _ => none) ∧ f = p.feed ∧ g = fun i => (q i).feed)
      (attempt x) (fun i => attempt (y i)) p q := by
  unfold Mirrors at h ⊢
  simp only [Parse.attempt]
  generalize x (.start p.feed) = r at h ⊢
  generalize hrs : (fun i => y i (.start (q i).feed)) = rs at h
  have hrs' : ∀ i, y i (.start (q i).feed) = rs i := fun i => congrFun hrs i
  simp only [hrs']
  cases h with
  | exhausted => exact .exhausted
  | elsewhere i q' h => exact .elsewhere i _ (by rw [h])
  | @ok a p' _ as qs h hp =>
    refine .ok (fun i => some (as i)) (fun i => Progress.keep (q i) (qs i)) (fun i => ?_) ?_
    · rw [h i]
    · exact .inl ⟨a, as, rfl, rfl, hp⟩
  | @invalid e p' _ h =>
    choose e' q' he using h trivial
    refine .ok (fun _ => none) (fun i => Progress.giveUp (q i) (q' i)) (fun i => ?_) ?_
    · rw [he i]
    · exact .inr ⟨rfl, rfl, rfl, rfl⟩

theorem lexeme {k : Lexeme → Parse β} {l : ι → Lexeme → Parse β}
    (h : Mirrors s Q (k p.feed.current.lexeme) (fun i => l i (q i).feed.current.lexeme) p q) :
    Mirrors s Q (Parse.lexeme >>= k) (fun i => Parse.lexeme >>= l i) p q :=
  h

theorem current {k : Token → Parse β} {l : ι → Token → Parse β}
    (h : Mirrors s Q (k p.feed.current) (fun i => l i (q i).feed.current) p q) :
    Mirrors s Q (Parse.current >>= k) (fun i => Parse.current >>= l i) p q :=
  h

theorem advance {k : Unit → Parse β} {l : ι → Unit → Parse β}
    (hc : Common M p.feed fun i => (q i).feed)
    (hk : ∀ p' q', Beside M p'.feed (fun i => (q' i).feed) →
      Mirrors s Q (k ()) (fun i => l i ()) p' q') :
    Mirrors s Q (Parse.advance >>= k) (fun i => Parse.advance >>= l i) p q :=
  hk _ (fun i => (Parse.advance (q i)).2) hc.advance

/-- A production that passes a token if it is of one kind, which no line break is. -/
theorem accept {x : Parse Unit} {k : Unit → Parse β} {l : ι → Unit → Parse β}
    (test : Lexeme → Bool) (details : String)
    (hx : x = Parse.lexeme >>= fun t => if test t then Parse.advance else Parse.reject details)
    (hbreak : test .newline = false) (hend : test .endOfText = false)
    (hr : Beside M p.feed fun i => (q i).feed)
    (hk : ∀ p' q', Beside M p'.feed (fun i => (q' i).feed) →
      Mirrors s Q (k ()) (fun i => l i ()) p' q') :
    Mirrors s Q (x >>= k) (fun i => x >>= l i) p q := by
  simp only [hx, bind_assoc]
  apply Mirrors.lexeme
  obtain hc | ⟨S, rfl, he⟩ := hr.view
  · simp only [hc.lexeme]
    split
    · exact .advance hc hk
    · exact .reject_bind
  · simp only [he.here.current, fun i => Feed.current_of_lexemes (he.there i), hbreak, hend]
    exact .reject_bind

theorem keyword {k : Unit → Parse β} {l : ι → Unit → Parse β} {w : Keyword}
    (hr : Beside M p.feed fun i => (q i).feed)
    (hk : ∀ p' q', Beside M p'.feed (fun i => (q' i).feed) →
      Mirrors s Q (k ()) (fun i => l i ()) p' q') :
    Mirrors s Q (Parse.keyword w >>= k) (fun i => Parse.keyword w >>= l i) p q := by
  refine accept (·.isKeyword w) s!"Expected '{w.text}'" ?_ rfl rfl hr hk
  rw [Parse.keyword]
  congr 1
  funext t
  cases t <;> simp [Lexeme.isKeyword]

theorem assignSign {k : Unit → Parse β} {l : ι → Unit → Parse β}
    (hr : Beside M p.feed fun i => (q i).feed)
    (hk : ∀ p' q', Beside M p'.feed (fun i => (q' i).feed) →
      Mirrors s Q (k ()) (fun i => l i ()) p' q') :
    Mirrors s Q (Parse.assignSign >>= k) (fun i => Parse.assignSign >>= l i) p q := by
  refine accept Lexeme.isAssign "Expected '='" ?_ rfl rfl hr hk
  rw [Parse.assignSign]
  congr 1
  funext t
  cases t <;> rfl

theorem openParams {k : Unit → Parse β} {l : ι → Unit → Parse β} {named : Bool}
    (hr : Beside M p.feed fun i => (q i).feed)
    (hk : ∀ p' q', Beside M p'.feed (fun i => (q' i).feed) →
      Mirrors s Q (k ()) (fun i => l i ()) p' q') :
    Mirrors s Q (Parse.openParams named >>= k) (fun i => Parse.openParams named >>= l i) p q := by
  refine accept Lexeme.isOpenParen
    (if named then "Expected '('" else "Expected identifier or '('") ?_ rfl rfl hr hk
  rw [Parse.openParams]
  congr 1
  funext t
  cases t <;> rfl

theorem optionalVar {k : Unit → Parse β} {l : ι → Unit → Parse β}
    (hr : Beside M p.feed fun i => (q i).feed)
    (hk : ∀ p' q', Beside M p'.feed (fun i => (q' i).feed) →
      Mirrors s Q (k ()) (fun i => l i ()) p' q') :
    Mirrors s Q (Parse.optionalVar >>= k) (fun i => Parse.optionalVar >>= l i) p q := by
  simp only [Parse.optionalVar, bind_assoc]
  apply Mirrors.lexeme
  obtain hc | ⟨S, rfl, he⟩ := hr.view
  · simp only [hc.lexeme]
    split
    · exact .advance hc hk
    · exact hk _ _ hr
  · simp only [he.here.current, fun i => Feed.current_of_lexemes (he.there i)]
    exact hk _ _ hr

theorem identifier {k : String × Span → Parse β} {l : ι → String × Span → Parse β}
    {details : String} (hr : Beside M p.feed fun i => (q i).feed)
    (hk : ∀ (name : String) (at_ : Span) (ats : ι → Span) (p' : Progress) (q' : ι → Progress),
      Beside M p'.feed (fun i => (q' i).feed) →
      Mirrors s Q (k (name, at_)) (fun i => l i (name, ats i)) p' q') :
    Mirrors s Q (Parse.identifier details >>= k) (fun i => Parse.identifier details >>= l i)
      p q := by
  simp only [Parse.identifier, bind_assoc]
  apply Mirrors.current
  obtain hc | ⟨S, rfl, he⟩ := hr.view
  · simp only [hc.lexeme]
    split
    · simp only [bind_assoc, pure_bind]
      exact .advance hc fun p' q' hr' => hk _ _ (fun i => (q i).feed.current.span) p' q' hr'
    · exact .reject_bind
  · simp only [he.here.current, fun i => Feed.current_of_lexemes (he.there i)]
    exact .reject_bind

theorem ifKeyword {w : Keyword} {x' : Parse α} {y' : ι → Parse α}
    (hr : Beside M p.feed fun i => (q i).feed)
    (hx : p.feed.current.lexeme = .keyword w → Common M p.feed (fun i => (q i).feed) →
      Mirrors s P x y p q) (hx' : Mirrors s P x' y' p q) :
    Mirrors s P (do if ← atKeyword w then x else x')
      (fun i => do if ← atKeyword w then y i else y' i) p q := by
  simp only [atKeyword, bind_assoc]
  apply Mirrors.lexeme
  obtain hc | ⟨S, rfl, he⟩ := hr.view
  · simp only [hc.lexeme]
    split
    · next v hv =>
      simp only [pure_bind]
      split
      · next hw => exact hx (by simpa [hv] using hw) hc
      · exact hx'
    · simp only [pure_bind]
      exact hx'
  · simp only [he.here.current, fun i => Feed.current_of_lexemes (he.there i)]
    exact hx'

theorem functionName {k : Option (String × Span) → Parse β}
    {l : ι → Option (String × Span) → Parse β} (hr : Beside M p.feed fun i => (q i).feed)
    (hk : ∀ o (os : ι → Option (String × Span)) p' q', (∀ i, (os i).map (·.1) = o.map (·.1)) →
      Beside M p'.feed (fun i => (q' i).feed) → Mirrors s Q (k o) (fun i => l i (os i)) p' q') :
    Mirrors s Q (Parse.functionName >>= k) (fun i => Parse.functionName >>= l i) p q := by
  simp only [Parse.functionName, bind_assoc]
  apply Mirrors.lexeme
  obtain hc | ⟨S, rfl, he⟩ := hr.view
  · simp only [hc.lexeme]
    split
    · simp only [map_eq_pure_bind, bind_assoc, pure_bind]
      refine identifier hr fun name at_ ats p' q' hr' => ?_
      exact hk _ (fun i => some (name, ats i)) p' q' (fun _ => rfl) hr'
    · exact hk _ (fun _ => none) _ _ (fun _ => rfl) hr
  · simp only [he.here.current, fun i => Feed.current_of_lexemes (he.there i)]
    exact hk _ (fun _ => none) _ _ (fun _ => rfl) hr

def SameNames (ps ps' : List (String × Span)) : Prop := ps'.map (·.1) = ps.map (·.1)

theorem moreParams (n : Nat) (m : ι → Nat) (hr : Beside M p.feed fun i => (q i).feed) :
    Mirrors s (fun ps pss f g => (∀ i, SameNames ps (pss i)) ∧ Beside M f g) (Parse.moreParams n)
      (fun i => Parse.moreParams (m i)) p q := by
  induction n generalizing m p q with
  | zero => exact .zero_left
  | succ n ih =>
    obtain ⟨i, hi⟩ | ⟨m, rfl⟩ := zero_or_succ m
    · exact .zero_right i (by simp only [hi, Parse.moreParams])
    · simp only [Parse.moreParams]
      apply Mirrors.lexeme
      obtain hc | ⟨S, rfl, he⟩ := hr.view
      · simp only [hc.lexeme]
        split
        · refine .advance hc fun p₁ q₁ hr₁ => identifier hr₁ fun name at_ ats p₂ q₂ hr₂ => ?_
          refine .bind (ih m hr₂) fun ps pss p₃ q₃ h => ?_
          exact .ret ⟨fun i => congrArg (name :: ·) (h.1 i), h.2⟩
        · exact .ret ⟨fun _ => rfl, hr⟩
      · simp only [he.here.current, fun i => Feed.current_of_lexemes (he.there i)]
        exact .ret ⟨fun _ => rfl, hr⟩

theorem params (n : Nat) (m : ι → Nat) (hr : Beside M p.feed fun i => (q i).feed) :
    Mirrors s (fun ps pss f g => (∀ i, SameNames ps (pss i)) ∧ Beside M f g) (Parse.params n)
      (fun i => Parse.params (m i)) p q := by
  simp only [Parse.params]
  apply Mirrors.lexeme
  obtain hc | ⟨S, rfl, he⟩ := hr.view
  · simp only [hc.lexeme]
    split
    · refine identifier hr fun name at_ ats p₁ q₁ hr₁ => ?_
      refine .bind (moreParams n m hr₁) fun ps pss p₂ q₂ h => .lexeme ?_
      obtain hc | ⟨S, rfl, he⟩ := h.2.view
      · simp only [hc.lexeme]
        split
        · exact .advance hc fun _ _ hr₃ => .ret ⟨fun i => congrArg (name :: ·) (h.1 i), hr₃⟩
        · exact .reject
      · simp only [he.here.current, fun i => Feed.current_of_lexemes (he.there i)]
        exact .reject
    · exact .advance hc fun _ _ hr' => .ret ⟨fun _ => rfl, hr'⟩
    · exact .reject
  · simp only [he.here.current, fun i => Feed.current_of_lexemes (he.there i)]
    exact .reject

theorem newlines {k : Nat → Parse β} {l : ι → Nat → Parse β}
    (hb : ∀ i, (q i).feed.breaks = p.feed.breaks)
    (hk : ∀ p' q', p'.feed = Nat.repeat Feed.advance p.feed.breaks p.feed →
      ((fun i => (q' i).feed) = fun i => Nat.repeat Feed.advance p.feed.breaks (q i).feed) →
      Mirrors s Q (k p.feed.breaks) (fun i => l i p.feed.breaks) p' q') :
    Mirrors s Q (Parse.newlines >>= k) (fun i => Parse.newlines >>= l i) p q := by
  have h := hk (Parse.newlines p).2 (fun i => (Parse.newlines (q i)).2) rfl
    (funext fun i => by rw [← hb i]; rfl)
  have hthere : (fun i => (Parse.newlines >>= l i) (q i)) =
      fun i => l i p.feed.breaks (Parse.newlines (q i)).2 := by
    funext i
    rw [← hb i]
    rfl
  unfold Mirrors at h ⊢
  rw [hthere]
  exact h

theorem keyword_end {k : Unit → Parse β} {l : ι → Unit → Parse β} {w : Keyword}
    (hp : p.feed.AtEnd) (hq : ∀ i, (q i).feed.AtEnd) :
    Mirrors s Q (Parse.keyword w >>= k) (fun i => Parse.keyword w >>= l i) p q := by
  simp only [Parse.keyword, bind_assoc]
  apply Mirrors.lexeme
  simp only [hp.current, fun i => (hq i).current]
  exact .reject_bind

end Mirrors

/-- What a production leaves behind: either results that are alike, with the readers together, or
all of them at their ends, where a result of the others has absorbed the statements added to the
text. -/
inductive After (M : Option (Seam ι)) (same : α → α → Prop) (grown : List Node → α → α → Prop) :
    α → (ι → α) → Feed → (ι → Feed) → Prop
  | same {a as f g} : (∀ i, same a (as i)) → Beside M f g → After M same grown a as f g
  | grown {a as f g} (S : Seam ι) : M = some S → (∀ i, grown (S.added i) a (as i)) → f.AtEnd →
      (∀ i, (g i).AtEnd) → After M same grown a as f g

namespace Mirrors

variable {s : Prop} {Q : β → (ι → β) → Feed → (ι → Feed) → Prop} {x : Parse α} {y : ι → Parse α}
  {k : α → Parse β} {l : ι → α → Parse β} {p : Progress} {q : ι → Progress}
  {M : Option (Seam ι)} {same : α → α → Prop} {grown : List Node → α → α → Prop}

theorem next (hx : Mirrors s (After M same grown) x y p q)
    (hsame : ∀ a (as : ι → α) p' q', (∀ i, same a (as i)) →
      Beside M p'.feed (fun i => (q' i).feed) → Mirrors s Q (k a) (fun i => l i (as i)) p' q')
    (hgrown : ∀ S a (as : ι → α) p' q', M = some S → (∀ i, grown (S.added i) a (as i)) →
      p'.feed.AtEnd → (∀ i, (q' i).feed.AtEnd) →
      Mirrors s Q (k a) (fun i => l i (as i)) p' q') :
    Mirrors s Q (x >>= k) (fun i => y i >>= l i) p q := by
  refine hx.bind fun a as p' q' h => ?_
  cases h with
  | same h hr => exact hsame a as p' q' h hr
  | grown S hM h hp hq => exact hgrown S a as p' q' hM h hp hq

end Mirrors

end Parse
end Think
