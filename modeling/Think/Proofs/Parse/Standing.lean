import Think.Proofs.Parse.Termination

/-! # Where a cursor stands

A cursor that stands on a token of its list stands on one again after any production: as many tokens
further on as the production has counted, never past the mark of the end, and with a rejection said
of that very token.
-/

namespace Think

namespace Token

/-- The mark of the end comes last and nowhere else. -/
def EndsOnce (tokens : List Token) : Prop :=
  ∃ body last, tokens = body ++ [last] ∧ last.lexeme = .endOfText ∧
    ∀ t ∈ body, t.lexeme ≠ .endOfText

def isEnd (t : Token) : Bool := t.lexeme matches .endOfText

theorem isEnd_iff {t : Token} : t.isEnd = true ↔ t.lexeme = .endOfText := by
  obtain ⟨lexeme, start, stop⟩ := t
  cases lexeme <;> simp [isEnd]

theorem EndsOnce.of_map_eq {ts us : List Token} (h : EndsOnce ts)
    (heq : us.map isEnd = ts.map isEnd) : EndsOnce us := by
  obtain ⟨body, last, rfl, hlast, hbody⟩ := h
  rw [List.map_append, List.map_singleton, List.map_eq_append_iff] at heq
  obtain ⟨front, back, rfl, hfront, hback⟩ := heq
  obtain ⟨mark, rfl, hmark⟩ := List.map_eq_singleton_iff.mp hback
  refine ⟨front, mark, rfl, isEnd_iff.mp (hmark.trans (isEnd_iff.mpr hlast)), fun t ht he => ?_⟩
  have hmem : true ∈ body.map isEnd := hfront ▸ List.mem_map.mpr ⟨t, ht, isEnd_iff.mpr he⟩
  obtain ⟨t', ht', he'⟩ := List.mem_map.mp hmem
  exact hbody t' ht' (isEnd_iff.mp he')

end Token

namespace Parse

variable {α β : Type} {x : Parse α} {k : α → Parse β} {p q r : Progress} {u v : List Token}

theorem snd_importForm (p : Progress) :
    (importForm p).2 = (advance p).2 ∧
        (∀ written, p.feed.advance.current.lexeme ≠ .text written) ∨
      (importForm p).2 = (advance (advance p).2).2 ∧
        ∃ written, p.feed.advance.current.lexeme = .text written := by
  have hbind (k : Token → Parse Node) :
      (do advance; k (← current)) p = k p.feed.advance.current (advance p).2 := rfl
  rw [importForm, hbind]
  cases p.feed.advance.current.lexeme with
  | text written => exact .inr ⟨rfl, written, rfl⟩
  | _ => exact .inl ⟨rfl, by simp⟩

/-- From `p` to `q` the tokens `u` were passed and counted. Whoever stands on a text then has not
just passed the word `import`. -/
structure Moves (p : Progress) (u : List Token) (q : Progress) : Prop where
  tokens : p.feed.tokens = u ++ q.feed.tokens
  advances : q.advances = p.advances + u.length
  clear : ∀ t ∈ u.getLast?, t.lexeme = .keyword .importKw →
    ∀ written, q.feed.current.lexeme ≠ .text written

namespace Moves

theorem refl (p : Progress) : Moves p [] p := ⟨rfl, rfl, by simp⟩

theorem trans (hpq : Moves p u q) (hqr : Moves q v r) : Moves p (u ++ v) r where
  tokens := by rw [hpq.tokens, hqr.tokens, List.append_assoc]
  advances := by rw [hqr.advances, hpq.advances, List.length_append, Nat.add_assoc]
  clear := by
    intro t ht
    by_cases hv : v = []
    · subst hv
      rw [List.append_nil] at ht
      have hcurrent : q.feed.current = r.feed.current := (List.cons.inj hqr.tokens).1
      rw [← hcurrent]
      exact hpq.clear t ht
    · rw [List.getLast?_append_of_ne_nil _ hv] at ht
      exact hqr.clear t ht

theorem isSealed (h : Moves p u q) (hp : p.feed.Sealed) : q.feed.Sealed := hp.of_append h.tokens

theorem of_passes {ls : List Lexeme} (h : p.feed.Passes ls q.feed)
    (hcount : q.advances = p.advances + ls.length) (hls : .keyword .importKw ∉ ls) :
    ∃ u, Moves p u q := by
  obtain ⟨u, hu, rfl⟩ := h
  refine ⟨u, hu, by rw [hcount, List.length_map], fun t ht hl => absurd ?_ hls⟩
  exact List.mem_map.mpr ⟨t, List.mem_of_getLast? ht, hl⟩

end Moves

/-- The production passes and counts tokens, however it ends. -/
def Moving (x : Parse α) (p : Progress) : Prop := p.feed.Sealed → ∃ u, Moves p u (x p).2

namespace Moving

theorem of_still (h : (x p).2 = p) : Moving x p := by
  intro _
  rw [h]
  exact ⟨[], .refl p⟩

theorem bind (hx : Moving x p) (hk : ∀ a q, Moving (k a) q) : Moving (x >>= k) p := by
  intro hp
  obtain ⟨u, hu⟩ := hx hp
  rw [bind_apply]
  rcases h : x p with ⟨e | a, q⟩
  · rw [h] at hu
    exact ⟨u, hu⟩
  · rw [h] at hu
    obtain ⟨v, hv⟩ := hk a q (hu.isSealed hp)
    exact ⟨u ++ v, hu.trans hv⟩

theorem advance {l : Lexeme} (hl : p.feed.current.lexeme = l)
    (h : l ≠ .endOfText ∧ l ≠ .keyword .importKw) : Moving advance p :=
  fun hp => Moves.of_passes (hp.passes_advance hl h.1) rfl (by simpa using h.2.symm)

theorem importForm (hl : p.feed.current.lexeme = .keyword .importKw) : Moving importForm p := by
  intro hp
  have hword := hp.advance_tokens (by simp [hl])
  rcases snd_importForm p with ⟨hend, ht⟩ | ⟨hend, written, ht⟩ <;> rw [hend]
  · exact ⟨[p.feed.current], hword, rfl, fun _ _ _ => ht⟩
  · have hq : p.feed.advance.Sealed := hp.of_append (u := [p.feed.current]) hword
    have hfile := hq.advance_tokens (by simp [ht])
    refine ⟨[p.feed.current, p.feed.advance.current], ?_, rfl, ?_⟩
    · rw [hword, hfile]
      rfl
    · rintro t ⟨⟩ hl
      cases ht.symm.trans hl

theorem newlines : Moving newlines p := by
  intro hp
  exact Moves.of_passes hp.passes_breaks.1 (by rw [List.length_replicate]; rfl) (by simp)

theorem part (h : Moving x (.start p.feed)) : Moving (part x) p := by
  intro hp
  obtain ⟨u, htokens, hadvances, hclear⟩ := h hp
  refine ⟨u, htokens, ?_, hclear⟩
  change p.advances + (x (.start p.feed)).2.advances = _
  rw [hadvances]
  exact congrArg (p.advances + ·) (Nat.zero_add _)

theorem partOr (details : String) (h : Moving x (.start p.feed)) :
    Moving (partOr details x) p := by
  intro hp
  rw [snd_partOr]
  exact h.part hp

theorem attempt (h : Moving x (.start p.feed)) : Moving (attempt x) p := by
  intro hp
  obtain ⟨u, hu⟩ := h.part hp
  rw [Parse.part] at hu
  rw [Parse.attempt]
  rcases hx : x (.start p.feed) with ⟨(e | _) | a, q⟩
  · exact ⟨[], rfl, rfl, by simp⟩
  · rw [hx] at hu
    exact ⟨u, hu⟩
  · rw [hx] at hu
    exact ⟨u, hu⟩

end Moving

theorem closed_moving : Closed Moving where
  ret _ _ := .of_still rfl
  exhausted _ := .of_still rfl
  reject _ _ := .of_still rfl
  bind := .bind
  current h := h
  lexeme h := h
  advance := .advance
  importForm := .importForm
  newlines _ := .newlines
  part := .part
  partOr := .partOr
  attempt := .attempt

theorem attempt_eq_none {w : Progress} {r : Except Rejection α} (hx : x (.start p.feed) = (r, q))
    (h : attempt x p = (.ok none, w)) : w.feed = p.feed ∧ w.back = q.advances := by
  rw [attempt, hx] at h
  rcases r with (e | _) | a <;> cases h
  exact ⟨rfl, rfl⟩

theorem snd_map (f : α → β) (x : Parse α) (p : Progress) : ((f <$> x) p).2 = (x p).2 := by
  rw [← bind_pure_comp, bind_apply]
  rcases x p with ⟨e | a, q⟩ <;> rfl

theorem optionalVar_apply (p : Progress) :
    optionalVar p = (.ok (), if p.feed.current.lexeme.isVarText then (advance p).2 else p) := by
  change (if p.feed.current.lexeme.isVarText then advance else pure ()) p = _
  split <;> rfl

theorem keyword_cases (w : Keyword) (p : Progress) :
    p.feed.current.lexeme = .keyword w ∧ keyword w p = (.ok (), (advance p).2) ∨
      ∃ e, keyword w p = (.error e, p) := by
  have hlexeme (k : Lexeme → Parse Unit) : (lexeme >>= k) p = k p.feed.current.lexeme p := rfl
  rw [keyword, hlexeme]
  cases p.feed.current.lexeme with
  | keyword v =>
    dsimp only
    split
    · next h => exact .inl ⟨by rw [h], rfl⟩
    · exact .inr ⟨_, rfl⟩
  | _ => exact .inr ⟨_, rfl⟩

/-- Behind the word `import` that leads a case, only what is passed later matters. -/
theorem moves_cases_import (n : Nat) {f : Feed} (hf : f.Sealed) :
    ∃ u q v, u.length ≤ (if f.current.lexeme.isVarText then 2 else 1) ∧
      f.tokens = u ++ q.feed.tokens ∧ q.advances = u.length ∧
      Moves q v (Parse.cases (n + 1) .importKw (.start f)).2 := by
  obtain ⟨u, q, hvar, hu, hcount, hlen⟩ : ∃ u q, optionalVar (.start f) = (.ok (), q) ∧
      f.tokens = u ++ q.feed.tokens ∧ q.advances = u.length ∧
      u.length = if f.current.lexeme.isVarText then 1 else 0 := by
    rw [optionalVar_apply]
    by_cases h : f.current.lexeme.isVarText
    · have hend : f.current.lexeme ≠ .endOfText := fun he => by simp [he, Lexeme.isVarText] at h
      exact ⟨[f.current], (advance (.start f)).2, by simp [Progress.start, h],
        hf.advance_tokens hend, rfl, by simp [h]⟩
    · exact ⟨[], .start f, by simp [Progress.start, h], rfl, rfl, by simp [h]⟩
  have hq : q.feed.Sealed := hf.of_append hu
  rw [Parse.cases_succ, bind_apply, hvar]
  dsimp only
  rw [bind_apply]
  rcases keyword_cases .importKw q with ⟨hl, hword⟩ | ⟨e, hword⟩ <;> rw [hword]
  · have hstep := hq.advance_tokens (by simp [hl])
    have hq' : q.feed.advance.Sealed := hq.of_append (u := [q.feed.current]) hstep
    have hguarded := closed_moving.guarded
    obtain ⟨v, hv⟩ := (hguarded.shared n).caseTail hguarded (advance q).2 hq'
    refine ⟨u ++ [q.feed.current], (advance q).2, v, ?_, ?_, ?_, hv⟩
    · rw [List.length_append, hlen, List.length_singleton]
      split <;> rfl
    · rw [hu, hstep, List.append_assoc]
      rfl
    · rw [List.length_append, ← hcount]
      rfl
  · refine ⟨u, q, [], ?_, hu, hcount, .refl q⟩
    rw [hlen]
    split <;> decide

end Parse

theorem Production.located (production : Production) {f : Feed} {e : Diagnostic}
    (h : (Parse.runOn production.run f).1 = .error (.invalid e)) :
    e.start = some (Parse.runOn production.run f).2.feed.current.start ∧
      e.stop = some (Parse.runOn production.run f).2.feed.current.stop := by
  have hlocated := Parse.closed_located.production production (Parse.fuelFor f.tokens.length)
    (.start f) fun _ _ _ _ _ => Parse.closed_located.keyword_of_advance fun _ => .advance
  obtain he | ⟨details, he⟩ := hlocated _ _ (Prod.ext h rfl)
  · cases he
  · cases he
    exact ⟨rfl, rfl⟩

namespace Cursor

variable {c : Cursor} {start stop i : Int} {ts : List Token}

theorem spellImports_cons (start stop i : Int) (t u : Token) (rest : List Token) :
    ∃ u', spellImports start stop i (t :: u :: rest) =
        t :: spellImports start stop (i + 1) (u' :: rest) ∧
      (u' = u ∨ t.lexeme = .keyword .importKw ∧ start ≤ i ∧
        ∃ written, u.lexeme = .text written ∧
          u' = { u with lexeme := .text (importPath written) }) := by
  rw [spellImports]
  refine ⟨_, rfl, ?_⟩
  split
  · next written ht hu =>
    split
    · next h =>
      have hstart : start ≤ i := by
        rw [Bool.and_eq_true, decide_eq_true_eq] at h
        exact h.1
      exact .inr ⟨ht, hstart, written, hu, rfl⟩
    · exact .inl rfl
  · exact .inl rfl

theorem spellImports_nil (start stop i : Int) : spellImports start stop i [] = [] := by
  rw [spellImports]
  simp

theorem spellImports_singleton (start stop i : Int) (t : Token) :
    spellImports start stop i [t] = [t] := by
  rw [spellImports]
  simp

theorem map_spellImports {γ : Type} {g : Token → γ}
    (hg : ∀ t written, t.lexeme = .text written →
      g { t with lexeme := .text (importPath written) } = g t) :
    (spellImports start stop i ts).map g = ts.map g := by
  obtain _ | ⟨t, rest⟩ := ts
  · rw [spellImports_nil]
  induction rest generalizing i t with
  | nil => rw [spellImports_singleton]
  | cons u rest ih =>
    obtain ⟨u', heq, h⟩ := spellImports_cons start stop i t u rest
    have hu : g u' = g u := by
      rcases h with rfl | ⟨-, -, written, hu, rfl⟩
      · rfl
      · exact hg u written hu
    rw [heq, List.map_cons, ih]
    simp only [List.map_cons, hu]

theorem getElem?_spellImports {k : Nat}
    (h : ∀ j v w written, j + 1 = k → ts[j]? = some v → v.lexeme = .keyword .importKw →
      ts[k]? = some w → w.lexeme = .text written → i + j < start) :
    (spellImports start stop i ts)[k]? = ts[k]? := by
  obtain _ | ⟨t, rest⟩ := ts
  · rw [spellImports_nil]
  induction rest generalizing i t k with
  | nil => rw [spellImports_singleton]
  | cons u rest ih =>
    obtain ⟨u', heq, hu⟩ := spellImports_cons start stop i t u rest
    rw [heq]
    cases k with
    | zero => rfl
    | succ k =>
      rw [List.getElem?_cons_succ, List.getElem?_cons_succ, ih u' ?_]
      · cases k with
        | succ k => rfl
        | zero =>
          rcases hu with rfl | ⟨ht, hstart, written, hu, rfl⟩
          · rfl
          · have := h 0 t u written rfl rfl ht rfl hu
            omega
      · rintro (_ | j) v w written rfl hv hl hw htext
        · rcases hu with rfl | ⟨-, -, written', hu, rfl⟩
          · have := h 1 v w written rfl hv hl hw htext
            omega
          · cases hv
            cases hl
        · have := h (j + 2) v w written rfl hv hl hw htext
          push_cast at this ⊢
          omega

theorem importsFrom_of_ne {production : Production}
    (h : production ≠ .cases Keyword.importKw.text) : c.importsFrom production = c.idx := by
  cases production with
  | cases lead => exact if_neg fun hlead => h (by rw [hlead])
  | _ => rfl

theorem getLast?_of_drop {l u v w : List Token} {n : Nat} (h : l.drop n = u ++ (v ++ w))
    (hv : 0 < v.length) : v.getLast? = l[n + (u.length + (v.length - 1))]? := by
  rw [← List.getElem?_drop, h, List.getElem?_append_right (Nat.le_add_right _ _),
    Nat.add_sub_cancel_left, List.getElem?_append_left (Nat.sub_lt hv Nat.one_pos),
    List.getLast?_eq_getElem?]

/-- The cursor stands on the token at its index, in a list with the mark of the end last and
nowhere else. -/
structure Stands (c : Cursor) : Prop where
  ends : Token.EndsOnce c.tokens
  idx : 0 ≤ c.idx
  current : c.tokens[c.idx.toNat]? = some c.current

namespace Stands

theorem feed_tokens (hc : c.Stands) : c.feed.tokens = c.tokens.drop c.idx.toNat := by
  obtain ⟨h, hcurrent⟩ := List.getElem?_eq_some_iff.mp hc.current
  rw [feed, if_pos hc.idx, List.drop_eq_getElem_cons h, hcurrent]
  rfl

theorem isSealed (hc : c.Stands) : c.feed.Sealed := by
  obtain ⟨h, -⟩ := List.getElem?_eq_some_iff.mp hc.current
  obtain ⟨body, last, htokens, hlast, -⟩ := hc.ends
  rw [Feed.Sealed, hc.feed_tokens, List.getLast?_drop, if_neg (Nat.not_le_of_lt h), htokens,
    List.getLast?_concat, Option.map_some, hlast]

/-- The tokens that a production passes, cut where it may first read an import. -/
theorem moves (hc : c.Stands) (production : Production) :
    ∃ u p v, c.idx + u.length ≤ c.importsFrom production ∧ c.feed.tokens = u ++ p.feed.tokens ∧
      p.advances = u.length ∧ Parse.Moves p v (Parse.runOn production.run c.feed).2 := by
  by_cases h : production = .cases Keyword.importKw.text
  · subst h
    obtain ⟨n, hn⟩ : ∃ n, Parse.fuelFor c.feed.tokens.length = n + 1 :=
      Nat.exists_eq_succ_of_ne_zero (by simp [Parse.fuelFor])
    obtain ⟨u, p, v, hlen, htokens, hcount, hv⟩ := Parse.moves_cases_import n hc.isSealed
    have hcurrent : c.feed.current = c.current := by rw [feed, if_pos hc.idx]
    refine ⟨u, p, v, ?_, htokens, hcount, ?_⟩
    · rw [importsFrom, if_pos rfl, ← hcurrent]
      split at hlen
      · next hvar => simp only [hvar, if_true]; omega
      · next hvar => simp only [hvar, Bool.false_eq_true, if_false]; omega
    · rw [Parse.runOn, hn]
      change Parse.Moves p v (Prod.snd ((Reading.cases <$> Parse.cases (n + 1) .importKw) _))
      rwa [Parse.snd_map]
  · have hlead (lead : String) (w : Keyword) (hp : production = .cases lead)
        (hw : Keyword.ofText? lead = some w) (q : Progress) :
        Parse.Moving (Parse.keyword w) q := by
      refine Parse.closed_moving.keyword (fun hi => h ?_) q
      have htext : w.text = lead := by simpa using List.find?_some hw
      rw [hp, ← htext, hi]
    obtain ⟨v, hv⟩ := Parse.closed_moving.production production
      (Parse.fuelFor c.feed.tokens.length) (.start c.feed) hlead hc.isSealed
    refine ⟨[], .start c.feed, v, ?_, rfl, rfl, hv⟩
    rw [importsFrom_of_ne h, List.length_nil]
    omega

section

variable (hc : c.Stands) (production : Production)

include hc

theorem toNat_moved (n : Nat) : (c.idx + n).toNat = c.idx.toNat + n := by
  have := hc.idx
  omega

theorem tokens_run : (Parse.runOn production.run c.feed).2.feed.tokens =
    c.tokens.drop (c.idx.toNat + (Parse.runOn production.run c.feed).2.advances) := by
  rw [(production.endsFrom hc.isSealed).back, hc.feed_tokens, List.drop_drop]

theorem current_run :
    c.tokens[c.idx.toNat + (Parse.runOn production.run c.feed).2.advances]? =
      some (Parse.runOn production.run c.feed).2.feed.current := by
  rw [← List.head?_drop, ← hc.tokens_run production]
  rfl

theorem idx_run : (c.run production).2.idx =
    c.idx + (Parse.runOn production.run c.feed).2.advances := by
  obtain ⟨hlt, -⟩ := List.getElem?_eq_some_iff.mp hc.current
  obtain ⟨hstop, -⟩ := List.getElem?_eq_some_iff.mp (hc.current_run production)
  have hidx := hc.idx
  have hleft := congrArg List.length (hc.tokens_run production)
  rw [List.length_drop] at hleft
  change c.indexAfter (Parse.runOn production.run c.feed).2 = _
  rw [indexAfter, if_pos (by omega), hleft]
  omega

/-- The token where a production stops is no file of an import that was passed. -/
theorem spelled_run :
    (spellImports (c.importsFrom production) stop 0 c.tokens)[
      c.idx.toNat + (Parse.runOn production.run c.feed).2.advances]? =
      some (Parse.runOn production.run c.feed).2.feed.current := by
  obtain ⟨u, p, v, hfrom, hu, hcount, hv⟩ := hc.moves production
  have hcurrent := hc.current_run production
  generalize (Parse.runOn production.run c.feed).2 = progress at hv hcurrent ⊢
  have htokens : c.tokens.drop c.idx.toNat = u ++ (v ++ progress.feed.tokens) := by
    rw [← hc.feed_tokens, hu, hv.tokens]
  have hadvances : progress.advances = u.length + v.length := by rw [hv.advances, hcount]
  rw [getElem?_spellImports ?_, hcurrent]
  intro j a b written hj ha hl hb htext
  rw [hcurrent] at hb
  cases hb
  by_contra hlt
  have hidx := hc.idx
  have hpassed : 0 < v.length := by omega
  refine hv.clear a ?_ hl written htext
  rw [Option.mem_def, getLast?_of_drop htokens hpassed, ← ha]
  congr 1
  omega

end

end Stands

/-- A production that ran from the cursor `c` and left it at `after` has ended, has counted the
tokens between, and rejects nothing but the token where the cursor stands now. Going back by what is
counted leads to `c`. -/
structure KeepsPlace (c : Cursor) (outcome : Outcome) (after : Cursor) : Prop where
  settled : outcome.reading ≠ .error .exhausted
  stands : after.Stands
  moved : after.idx = c.idx + outcome.progress.advances
  inside : after.idx < c.tokens.length
  stopped : outcome.progress.feed.tokens = c.tokens.drop after.idx.toNat
  located : ∀ e, outcome.reading = .error (.invalid e) →
    e.start = some after.current.start ∧ e.stop = some after.current.stop
  rewound : ∀ (x : Parse Reading) (p q : Progress), p.feed = c.feed →
    x (.start c.feed) = (outcome.reading, outcome.progress) → Parse.attempt x p = (.ok none, q) →
    q.feed.tokens = c.tokens.drop (after.idx - q.back).toNat

/-- From every place in a list of tokens every production ends in step with its count. -/
theorem keepsPlace_run (c : Cursor) (hc : c.Stands) (production : Production) :
    c.KeepsPlace (c.run production).1 (c.run production).2 := by
  have hmoved := hc.idx_run production
  have htoNat := hc.toNat_moved (Parse.runOn production.run c.feed).2.advances
  exact {
    settled := (production.endsFrom hc.isSealed).settled
    stands := {
      ends := hc.ends.of_map_eq (map_spellImports fun _ _ ht => by simp [Token.isEnd, ht])
      idx := hmoved ▸ Int.add_nonneg hc.idx (Int.natCast_nonneg _)
      current := by
        rw [hmoved, htoNat]
        exact hc.spelled_run production }
    moved := hmoved
    inside := by
      obtain ⟨h, -⟩ := List.getElem?_eq_some_iff.mp (hc.current_run production)
      have := hc.idx
      rw [hmoved]
      omega
    stopped := by
      rw [hmoved, htoNat]
      exact hc.tokens_run production
    located := fun _ => production.located
    rewound := by
      intro x p q hp hx hgiven
      obtain ⟨hfeed, hback⟩ := Parse.attempt_eq_none (hp ▸ hx) hgiven
      rw [hfeed, hback, hp, hc.feed_tokens, hmoved]
      congr 2
      exact (Int.add_sub_cancel _ _).symm }

/-- The bracket opens a sum whose right side is missing, behind an import. -/
theorem keepsPlace_run_sum :
    let lexemes : List Lexeme := [.keyword .importKw, .text "lib", .newline, .openParen, .int 1,
      .plus, .closeParen, .endOfText]
    let tokens := lexemes.mapIdx fun i l => Token.single l { (default : Position) with idx := i }
    ∃ t, Stands ⟨tokens, 3, t⟩ ∧
      (run ⟨tokens, 3, t⟩ .statements).1.reading.isOk = false ∧
      KeepsPlace ⟨tokens, 3, t⟩ (run ⟨tokens, 3, t⟩ .statements).1
        (run ⟨tokens, 3, t⟩ .statements).2 := by
  intro lexemes tokens
  have hc : Stands ⟨tokens, 3, tokens[3]⟩ := by
    refine ⟨⟨tokens.take 7, tokens[7], rfl, rfl, ?_⟩, by decide, rfl⟩
    simp [tokens, lexemes, Token.single]
  exact ⟨_, hc, by decide +kernel, keepsPlace_run _ hc _⟩

end Cursor

end Think
