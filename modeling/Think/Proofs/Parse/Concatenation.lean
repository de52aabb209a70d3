import Think.Proofs.Parse.Fuel
import Think.Proofs.Parse.Kept
import Think.Proofs.Parse.Seam

/-! # Programs put one behind the other

The statements of a program are followed by those of another one when the two texts are joined by
a line break, unless the first text leaves the block of an `if` open: then the block takes them in.
-/

namespace Think

namespace Parse

variable {α : Type} {x y : Parse α} {a : α} {n m k : Nat} {p p' q : Progress} {f g : Feed}

theorem Mirrors.follow {s : Prop} {same : α → α → Prop} {grown : List Node → α → α → Prop}
    (h : Mirrors s (After none same grown) x (fun _ : Unit => y) p fun _ => q)
    (hx : x p = (.ok a, p')) :
    (∃ q', y q = (.error .exhausted, q')) ∨
      ∃ a' q', y q = (.ok a', q') ∧ same a a' ∧ q'.feed.lexemes = p'.feed.lexemes := by
  obtain ⟨-, q', h⟩ | ⟨as, qs, h, hp⟩ := h.exhausted_or_ok hx
  · exact .inl ⟨q', h⟩
  · cases hp with
    | same ha hr => exact .inr ⟨as (), qs (), h (), ha (), hr ()⟩
    | grown S hM => cases hM

theorem Mirrors.follow_gathered {s : Prop} {x y : Parse (List Node)} {ns : List Node}
    (h : Mirrors s (Gathered none) x (fun _ : Unit => y) p fun _ => q)
    (hx : x p = (.ok ns, p')) :
    (∃ q', y q = (.error .exhausted, q')) ∨
      ∃ ns' q', y q = (.ok ns', q') ∧ Node.shapes ns' = Node.shapes ns ∧
        q'.feed.lexemes = p'.feed.lexemes := by
  obtain ⟨-, q', h⟩ | ⟨as, qs, h, hp⟩ := h.exhausted_or_ok hx
  · exact .inl ⟨q', h⟩
  · cases hp with
    | same ha hr => exact .inr ⟨as (), qs (), h (), ha (), hr ()⟩
    | grown S hM => cases hM
    | absorbed S hM => cases hM

/-- A form that can be read is read wherever its lexemes stand, if the fuel lasts. -/
theorem Opened.not_invalid (ho : Opened f) (hp : p.feed.lexemes = f.lexemes) (e : Diagnostic)
    (q : Progress) : atom n p ≠ (.error (.invalid e), q) := by
  intro he
  obtain ⟨m, a, g, p', q', rfl, -, ha⟩ := ho
  have hr : Beside (ι := Unit) none p.feed fun _ => p'.feed := fun _ => hp.symm
  have h := (mirrored none n).atom (fun _ => m) p (fun _ => p') hr
  unfold Mirrors at h
  rw [he] at h
  cases h with
  | elsewhere i q h => cases ha.symm.trans h
  | invalid h =>
    obtain ⟨e, q, h⟩ := h trivial ()
    cases ha.symm.trans h

/-- The feed carries a whole text: `ls` and then its only end. -/
structure Feed.Holds (f : Feed) (ls : List Lexeme) : Prop where
  lexemes : f.lexemes = ls ++ [.endOfText]
  noEnd : .endOfText ∉ ls

theorem program_eq_ok {a : Node} :
    program n p = (.ok a, q) ↔
      statements n p = (.ok a, q) ∧ q.feed.current.lexeme = .endOfText := by
  have hlexeme (p : Progress) : lexeme p = (.ok p.feed.current.lexeme, p) := rfl
  rw [program, bind_eq_ok]
  constructor
  · rintro ⟨b, p₁, hb, h⟩
    rw [bind_apply, hlexeme] at h
    cases hl : p₁.feed.current.lexeme <;> rw [hl] at h <;> cases h
    exact ⟨hb, hl⟩
  · rintro ⟨h, hl⟩
    refine ⟨a, q, h, ?_⟩
    rw [bind_apply, hlexeme, hl]
    rfl

variable {ls : List Lexeme}

namespace Feed.Holds

theorem exists_tokens (hf : Feed.Holds f ls) : ∃ body last, f.tokens = body ++ [last] ∧
    body.map (·.lexeme) = ls ∧ last.lexeme = .endOfText := by
  obtain ⟨body, rest, hbody, hls, hrest⟩ := List.map_eq_append_iff.mp hf.lexemes
  obtain ⟨last, rfl, hlast⟩ := List.map_eq_singleton_iff.mp hrest
  exact ⟨body, last, hbody, hls, hlast⟩

theorem isSealed (hf : Feed.Holds f ls) : f.Sealed := by
  obtain ⟨body, last, ht, -, hlast⟩ := hf.exists_tokens
  simp [Feed.Sealed, ht, hlast]

theorem atEnd (hf : Feed.Holds f ls) {us : List Lexeme} (hp : f.Passes us g)
    (hg : g.current.lexeme = .endOfText) : us = ls ∧ g.AtEnd := by
  obtain ⟨body, last, ht, hls, hlast⟩ := hf.exists_tokens
  have hbody : ∀ t ∈ body, t.lexeme ≠ .endOfText := fun t h he =>
    hf.noEnd (hls ▸ he ▸ List.mem_map_of_mem h)
  have hus := hp.eq_body ht hbody hg
  obtain ⟨u, hu, hmap⟩ := hp
  have hlen : u.length = body.length := by
    simpa using congrArg List.length (hmap.trans hus)
  have hgt : g.tokens = [last] := (List.append_inj_right (hu.symm.trans ht) hlen)
  exact ⟨hus.trans hls, by simp [Feed.AtEnd, Feed.lexemes, hgt, hlast]⟩

end Feed.Holds

/-- In a text that can be read, whatever opens a form can be read as such. -/
theorem lively {a : Node} (hf : Feed.Holds f ls) (hy : Yields (program n) f a g)
    (ms : List Lexeme) (l : Lexeme) (hl : l :: ms <:+ ls) (ho : l.opens) (m : Nat) (p : Progress)
    (hp : p.feed.lexemes = l :: ms ++ [.endOfText]) (e : Diagnostic) (q : Progress) :
    atom m p ≠ (.error (.invalid e), q) := by
  have hkept : (∃ us, f.Passes us g) ∧ Kept f g := by
    obtain ⟨p, q, rfl, rfl, h⟩ := hy
    exact keeps_statements n _ hf.isSealed ⟨p, q, rfl, rfl, (program_eq_ok.mp h).1⟩
  obtain ⟨⟨us, hus⟩, hk⟩ := hkept
  obtain ⟨body, last, ht, hls, hlast⟩ := hf.exists_tokens
  obtain ⟨-, hend⟩ := hf.atEnd hus (program_stops hy)
  obtain ⟨ks, hks⟩ := hl
  obtain ⟨u, v, rfl, -, hv⟩ := List.map_eq_append_iff.mp (hls.trans hks.symm)
  obtain ⟨t, v, rfl, rfl, hms⟩ := List.map_eq_cons_iff.mp hv
  obtain ⟨last', hg, -⟩ := List.map_eq_singleton_iff.mp hend
  have hlast' : last' = last := by
    obtain ⟨w, hw, -⟩ := hus
    rw [ht, hg] at hw
    exact (List.cons.inj (List.append_inj_right' hw rfl)).1.symm
  have hopened : Opened ⟨t, v ++ [last]⟩ := by
    refine hk u t v _ ?_ ?_ ho
    · rw [ht, List.append_assoc]
      rfl
    · rw [hg, hlast']
      rfl
  refine hopened.not_invalid ?_ e q
  rw [hp]
  simp [Feed.lexemes, Feed.tokens, hms, hlast]

theorem attempt_of_part {r : Except Rejection α}
    (h : part x p = (r, q)) (hr : ∀ e, r ≠ .error (.invalid e)) :
    attempt x p = (r.map some, q) := by
  rw [part] at h
  rw [attempt]
  rcases hx : x (.start p.feed) with ⟨r', q'⟩
  rw [hx] at h
  cases h
  cases r with
  | ok a => rfl
  | error e =>
    cases e with
    | invalid e => exact (hr e rfl).elim
    | exhausted => rfl

theorem exists_breaks_end (ls : List Lexeme) :
    ∃ k l ms, ls ++ [.endOfText] = .replicate k .newline ++ l :: ms ∧ l ≠ .newline := by
  obtain ⟨k, ms, h, hms⟩ := exists_breaks (ls ++ [.endOfText])
  cases ms with
  | nil =>
    have hend : Lexeme.endOfText ∈ List.replicate k Lexeme.newline := by
      rw [← List.append_nil (.replicate k _), ← h]
      simp
    cases List.eq_of_mem_replicate hend
  | cons l ms => exact ⟨k, l, ms, h, hms l rfl⟩

theorem statements_eq_ok {a : Node} (h : statements (n + 1) p = (.ok a, q)) :
    ∃ s first others p', a = .list s (first :: others) ∧
      part (statement n) (newlines p).2 = (.ok first, p') ∧
      moreStatements n p' = (.ok others, q) := by
  rw [statements] at h
  obtain ⟨t, p₁, ht, h⟩ := bind_eq_ok.mp h
  cases ht
  obtain ⟨c, p₂, hc, h⟩ := bind_eq_ok.mp h
  obtain rfl : (newlines p).2 = p₂ := congrArg Prod.snd hc
  obtain ⟨first, p₃, hfirst, h⟩ := bind_eq_ok.mp h
  obtain ⟨others, p₄, hothers, h⟩ := bind_eq_ok.mp h
  obtain ⟨t, p₅, ht, h⟩ := bind_eq_ok.mp h
  cases ht
  cases h
  exact ⟨_, first, others, p₃, rfl, hfirst, hothers⟩

theorem moreStatements_some {s : Node} (hb : p.feed.breaks ≠ 0)
    (ha : attempt (statement m) (newlines p).2 = (.ok (some s), q)) :
    moreStatements (m + 1) p = (moreStatements m >>= fun ns => pure (s :: ns)) q := by
  rw [moreStatements]
  change (if p.feed.breaks = 0 then _ else _ : Parse (List Node)) (newlines p).2 = _
  rw [if_neg hb, bind_apply, ha]

theorem moreStatements_exhausted (hb : p.feed.breaks ≠ 0)
    (ha : attempt (statement m) (newlines p).2 = (.error .exhausted, q)) :
    moreStatements (m + 1) p = (.error .exhausted, q) := by
  rw [moreStatements]
  change (if p.feed.breaks = 0 then _ else _ : Parse (List Node)) (newlines p).2 = _
  rw [if_neg hb, bind_apply, ha]

/-- Behind line breaks the statements of a program are found again, one and then the others. -/
theorem finds_program {s : Span} {B : List Node} (hf : Feed.Holds f ls)
    (hy : Yields (program n) f (.list s B) g)
    (hp : p.feed.lexemes = .replicate k .newline ++ (ls ++ [.endOfText])) :
    (∃ q, part (statement m) (newlines p).2 = (.error .exhausted, q)) ∨
      ∃ first q, part (statement m) (newlines p).2 = (.ok first, q) ∧
        ((∃ q', moreStatements m q = (.error .exhausted, q')) ∨
          ∃ others q', moreStatements m q = (.ok others, q') ∧
            Node.shapes (first :: others) = Node.shapes B ∧ q'.feed.lexemes = [.endOfText]) := by
  have hstop := program_stops hy
  obtain ⟨us, hus, -⟩ := program_accounts hf.isSealed hy
  have hend := (hf.atEnd hus hstop).2
  obtain ⟨p₀, q₀, rfl, rfl, h⟩ := hy
  replace h := (program_eq_ok.mp h).1
  cases n with
  | zero => cases h
  | succ n =>
  obtain ⟨s', first, others, p₁, hlist, hfirst, hothers⟩ := statements_eq_ok h
  cases hlist
  obtain ⟨j, l, ms, hls, hl⟩ := exists_breaks_end ls
  have hp₀ := hf.lexemes
  rw [hls] at hp₀ hp
  rw [← List.append_assoc, ← List.replicate_add] at hp
  obtain ⟨-, hr₀⟩ := Feed.breaks_of_lexemes hp₀ hl
  obtain ⟨-, hr⟩ := Feed.breaks_of_lexemes hp hl
  have hsame : (newlines p).2.feed.lexemes = (newlines p₀).2.feed.lexemes := hr.trans hr₀.symm
  have hpart : Mirrors True (Tree none) (part (statement n)) (fun _ : Unit => part (statement m))
      (newlines p₀).2 fun _ => (newlines p).2 :=
    .part ((mirrored none n).statement (fun _ => m) _ _ fun _ => hsame)
  obtain hq | ⟨first', q, hq, hs, hlex⟩ := hpart.follow hfirst
  · exact .inl hq
  · refine .inr ⟨first', q, hq, ?_⟩
    obtain hq' | ⟨others', q', hq', hns, hlex'⟩ :=
      Mirrors.follow_gathered ((mirrored none n).moreStatements (fun _ => m) p₁ (fun _ => q)
        fun _ => hlex) hothers
    · exact .inl hq'
    · refine .inr ⟨others', q', hq', ?_, hlex'.trans hend⟩
      rw [Node.shapes, Node.shapes, hs, hns]

/-- The statements of a program are read behind line breaks as well. -/
theorem statements_behind {s : Span} {B : List Node} (hf : Feed.Holds f ls)
    (hy : Yields (program n) f (.list s B) g)
    (hp : p.feed.lexemes = .replicate k .newline ++ (ls ++ [.endOfText])) :
    (∃ q, statements m p = (.error .exhausted, q)) ∨
      ∃ s C q, statements m p = (.ok (.list s C), q) ∧ Node.shapes C = Node.shapes B ∧
        q.feed.lexemes = [.endOfText] := by
  cases m with
  | zero => exact .inl ⟨_, rfl⟩
  | succ m =>
  have hrun : statements (m + 1) p =
      (part (statement m) >>= fun first => moreStatements m >>= fun others =>
        Parse.current >>= fun t => pure (.list ⟨p.feed.current.start, t.stop⟩ (first :: others)))
      (newlines p).2 := by
    rw [statements]
    rfl
  rw [hrun, bind_apply]
  obtain ⟨q, hq⟩ | ⟨first, q, hq, h⟩ := finds_program hf hy hp
  · exact .inl ⟨q, by rw [hq]⟩
  · rw [hq]
    dsimp only
    rw [bind_apply]
    obtain ⟨q', hq'⟩ | ⟨others, q', hq', hshapes, hlex⟩ := h
    · exact .inl ⟨q', by rw [hq']⟩
    · rw [hq']
      exact .inr ⟨_, _, q', rfl, hshapes, hlex⟩

/-- The statements of a program are gathered behind line breaks as well. -/
theorem gathers_program {s : Span} {B : List Node} (hf : Feed.Holds f ls)
    (hy : Yields (program n) f (.list s B) g)
    (hp : p.feed.lexemes = .replicate (k + 1) .newline ++ (ls ++ [.endOfText])) :
    (moreStatements m p).1 = .error .exhausted ∨
      ∃ ns q, moreStatements m p = (.ok ns, q) ∧ Node.shapes ns = Node.shapes B ∧
        q.feed.lexemes = [.endOfText] := by
  cases m with
  | zero => exact .inl rfl
  | succ m =>
  have hb : p.feed.breaks ≠ 0 := by
    obtain ⟨j, l, ms, hls, hl⟩ := exists_breaks_end ls
    have hp' := hp
    rw [hls, ← List.append_assoc, ← List.replicate_add] at hp'
    have := (Feed.breaks_of_lexemes hp' hl).1
    omega
  obtain ⟨q, hq⟩ | ⟨first, q, hq, h⟩ := finds_program (m := m) hf hy hp
  · exact .inl (by rw [moreStatements_exhausted hb (attempt_of_part hq (by simp))])
  · rw [moreStatements_some hb (attempt_of_part hq (by simp)), bind_apply]
    obtain ⟨q', hq'⟩ | ⟨others, q', hq', hshapes, hlex⟩ := h
    · exact .inl (by rw [hq'])
    · exact .inr ⟨first :: others, q', by rw [hq']; rfl, hshapes, hlex⟩

theorem gathers_nothing {j : Nat}
    (hp : p.feed.lexemes = .replicate (k + 1) .newline ++ (.replicate j .newline ++ [.endOfText])) :
    (moreStatements m p).1 = .error .exhausted ∨
      ∃ ns q, moreStatements m p = (.ok ns, q) ∧ Node.shapes ns = [] ∧
        q.feed.lexemes = [.endOfText] := by
  rw [← List.append_assoc, ← List.replicate_add] at hp
  obtain ⟨-, hr⟩ := Feed.breaks_of_lexemes hp (by simp)
  obtain ⟨q, hq⟩ | ⟨q, hq, hf⟩ := moreStatements_ends m hr
  · exact .inl (by rw [hq])
  · exact .inr ⟨[], q, hq, rfl, hf⟩

theorem gathers_end
    (hp : p.feed.lexemes = .replicate (k + 1) .newline ++ [.keyword .endKw, .endOfText]) :
    (moreStatements m p).1 = .error .exhausted ∨
      ∃ ns q, moreStatements m p = (.ok ns, q) ∧ Node.shapes ns = [] ∧
        q.feed.lexemes = [.keyword .endKw, .endOfText] := by
  obtain ⟨-, hr⟩ := Feed.breaks_of_lexemes hp (by simp)
  obtain ⟨q, hq⟩ | ⟨q, hq, hf⟩ :=
    moreStatements_blocked m (by rw [Feed.current_of_lexemes hr]; rfl)
  · exact .inl (by rw [hq])
  · exact .inr ⟨[], q, hq, rfl, hf ▸ hr⟩

/-- Whatever is read from `ls` and the continuation has the property `P`. -/
def Continues (ls : List Lexeme) (c : Continuation) (P : List Node → Feed → Prop) : Prop :=
  ∀ m q, q.feed.lexemes = ls ++ .newline :: c.tail →
    (∃ q', statements m q = (.error .exhausted, q')) ∨
      ∃ s C q', statements m q = (.ok (.list s C), q') ∧ P C q'.feed

/-- A text leaves a block open that takes in whatever follows. -/
def LeavesOpen (ls : List Lexeme) (A : List Node) : Prop :=
  ∀ c, Continues ls c fun C f =>
    Node.Absorbs c.added (.list default (Node.shapes A)) (.list default (Node.shapes C)) ∧ f.AtEnd

def IsFollowed (ls : List Lexeme) (A : List Node) : Prop :=
  ∀ c, Continues ls c fun C f =>
    Node.shapes C = Node.shapes A ++ c.added ∧ f.lexemes = c.after

theorem leavesOpen_or_isFollowed {s : Span} {A : List Node} (hf : Feed.Holds f ls)
    (hy : Yields (program n) f (.list s A) g) : LeavesOpen ls A ∨ IsFollowed ls A := by
  have hlively := lively hf hy
  obtain ⟨p, q, rfl, rfl, h⟩ := hy
  obtain ⟨h, hstop⟩ := program_eq_ok.mp h
  -- One reader for each continuation and each way to read it that does not run out of fuel.
  let ι := {r : Continuation × Nat × Progress //
    r.2.2.feed.lexemes = ls ++ .newline :: r.1.tail ∧
      ∀ q', statements r.2.1 r.2.2 ≠ (.error .exhausted, q')}
  let S : Seam ι := ⟨ls, fun r => r.1.1, hf.noEnd, hlively⟩
  have hr : Beside (some S) p.feed fun r : ι => r.1.2.2.feed :=
    ⟨ls, List.suffix_rfl, hf.lexemes, fun r => r.2.1⟩
  have hm := (mirrored (some S) n).statements (fun r : ι => r.1.2.1) p (fun r => r.1.2.2) hr
  have hreader {P : List Node → Feed → Prop} {c : Continuation}
      (hP : ∀ r : ι, r.1.1 = c → ∃ s C q', statements r.1.2.1 r.1.2.2 = (.ok (.list s C), q') ∧
        P C q'.feed) : Continues ls c P := by
    intro m q hq
    by_cases hex : ∃ q', statements m q = (.error .exhausted, q')
    · exact .inl hex
    · exact .inr (hP ⟨(c, m, q), hq, not_exists.mp hex⟩ rfl)
  obtain ⟨r, q', he⟩ | ⟨as, qs, hok, s', ms, ss, mss, hlist, rfl, hg⟩ := hm.exhausted_or_ok h
  · exact (r.2.2 q' he).elim
  · cases hlist
    cases hg with
    | same _ _ hin => exact (hin.resolve_left (by simp) hstop).elim
    | grown T hT hgrown _ hend =>
      cases hT
      exact .inl fun c => hreader fun r hc => ⟨_, _, _, hok r, hc ▸ hgrown r, hend r⟩
    | absorbed T hT hadded _ hafter =>
      cases hT
      exact .inr fun c => hreader fun r hc => ⟨_, _, _, hok r, hc ▸ hadded r, hc ▸ hafter r⟩

end Parse
end Think
