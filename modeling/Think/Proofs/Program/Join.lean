import Think.Proofs.Parse.Concatenation
import Think.Proofs.Token.Concatenation

/-! # Joining two texts

The tree of two texts that are joined by a line break. The statements of the second text follow
those of the first, unless the first one leaves the block of an `if` or `elif` open. Such a block
needs no `end` where the text ends, so it takes in whatever is put behind the text.
-/

namespace Think

/-- What is taken in by a block does not make the list of statements longer. -/
theorem Node.Absorbs.length_eq {bs ns ns' : List Node}
    (h : Absorbs bs (.list default ns) (.list default ns')) : ns'.length = ns.length := by
  cases h with
  | last h => rw [List.length_append, List.length_append]; rfl

namespace Source

/-- The text is read as the tree. -/
def HasTree (source : Source) (tree : Node) : Prop :=
  ∃ tokens, source.tokens = .ok tokens ∧ Node.ofTokens tokens = .ok tree

instance (source : Source) : Decidable (∃ tree, source.HasTree tree) :=
  match ht : source.tokens with
  | .error _ => isFalse (by simp [HasTree, ht])
  | .ok tokens =>
    match hn : Node.ofTokens tokens with
    | .error _ => isFalse (by simp [HasTree, ht, hn])
    | .ok tree => isTrue ⟨tree, tokens, ht, hn⟩

instance (source : Source) (p : Node → Bool) : Decidable (∃ tree, source.HasTree tree ∧ p tree) :=
  match ht : source.tokens with
  | .error _ => isFalse (by simp [HasTree, ht])
  | .ok tokens =>
    match hn : Node.ofTokens tokens with
    | .error _ => isFalse (by simp [HasTree, ht, hn])
    | .ok tree => decidable_of_iff (p tree = true) (by simp [HasTree, ht, hn])

/-- No quoted text of the source reaches beyond its end. -/
def IsClosed (source : Source) : Prop :=
  ∀ tokens, source.tokens = .ok tokens → ∀ t ∈ tokens, t.Closed

instance (source : Source) : Decidable source.IsClosed :=
  match ht : source.tokens with
  | .error _ => isTrue (by simp [IsClosed, ht])
  | .ok tokens => decidable_of_iff (∀ t ∈ tokens, t.Closed) (by simp [IsClosed, ht])

def join (a b : Source) : Source := ⟨a.name, a.text ++ "\n" ++ b.text⟩

/-- A block is open at the end of the text: an `end` may be put behind it. -/
def LeavesOpen (source : Source) : Prop :=
  ∃ tree, (source.join ⟨source.name, "end"⟩).HasTree tree

instance (source : Source) : Decidable source.LeavesOpen :=
  inferInstanceAs (Decidable (Exists _))

end Source

namespace Parse

variable {f : Feed} {ls : List Lexeme} {tokens : List Token} {tree : Node} {p : Progress} {n : Nat}

theorem exists_feed (ht : tokens.map (·.lexeme) = ls) (hls : ls.getLast? = some .endOfText) :
    ∃ f : Feed, f.tokens = tokens ∧ f.lexemes = ls ∧ f.Sealed := by
  cases tokens with
  | nil =>
    rw [← ht] at hls
    cases hls
  | cons t rest =>
    refine ⟨⟨t, rest⟩, rfl, ht, ?_⟩
    rw [← ht, List.getLast?_map] at hls
    exact hls

theorem ofTokens_eq_ok : Node.ofTokens f.tokens = .ok tree ↔
    ∃ q, program (fuelFor f.tokens.length) (.start f) = (.ok tree, q) := by
  change (program (fuelFor f.tokens.length) (.start f)).1 = _ ↔ _
  constructor
  · intro h
    exact ⟨_, Prod.ext h rfl⟩
  · rintro ⟨q, h⟩
    rw [h]

theorem statements_settled (hf : f.Sealed) (q : Progress) :
    statements (fuelFor f.tokens.length) (.start f) ≠ (.error .exhausted, q) := by
  intro h
  have hprogram := (program_agrees (p := .start f) hf (Nat.le_refl _)).settled
  have hfeed : (Progress.start f).feed = f := rfl
  rw [program, bind_apply, hfeed, h] at hprogram
  exact hprogram rfl

theorem Errs.statements (n : Nat) (hb : p.feed.breaks = 0) (hs : p.feed.Stuck) :
    Errs (Parse.statements n) p := by
  cases n with
  | zero => exact .exhausted
  | succ n =>
    rw [Parse.statements]
    apply Errs.current
    apply Errs.newlines
    refine .bind (.part ((blocked n).statement _ ?_))
    change (Nat.repeat Feed.advance p.feed.breaks p.feed).Stuck
    rw [hb]
    exact hs

theorem breaks_eq_zero (h : f.current.lexeme ≠ .newline) : f.breaks = 0 :=
  (Feed.breaks_of_lexemes (k := 0) rfl h).1

theorem not_ofTokens_of_stuck (hl : f.current.lexeme ≠ .newline) (hs : f.Stuck) :
    Node.ofTokens f.tokens ≠ .ok tree := by
  intro h
  obtain ⟨q, h⟩ := ofTokens_eq_ok.mp h
  obtain ⟨e, he⟩ := Errs.statements (p := .start f) (fuelFor f.tokens.length) (breaks_eq_zero hl) hs
  rw [(program_eq_ok.mp h).1] at he
  cases he

end Parse

namespace Scanner

variable {s : Scanner} {t : List Char}

/-- An equals sign in front is read as a lexeme that no statement starts with. -/
theorem readFrom_equals (s : Scanner) (previous? : Option Token) :
    ∃ u after, s.readFrom '=' previous? = .ok ([u], after) ∧ u.lexeme.starts = false ∧
      u.lexeme ≠ .newline := by
  have hread : s.readFrom '=' previous? = readFrom.one (oneOrTwo .assign '=' .equal s) := rfl
  rw [hread, oneOrTwo]
  split
  · exact ⟨_, _, rfl, rfl, by simp⟩
  · exact ⟨_, _, rfl, rfl, by simp⟩

end Scanner

open Scanner in
theorem Source.HasTree.detached {b : Source} {tree : Node} (hb : b.HasTree tree) :
    Detached ('\n' :: b.text.toList) := by
  obtain ⟨tokens, htokens, htree⟩ := hb
  refine .line ?_ ?_
  · intro h
    obtain ⟨t, hs⟩ := List.head?_eq_some_iff.mp h
    obtain ⟨u, after, hr, hstart, hline⟩ := readFrom_equals (ofSource b) none
    have hstep : (ofSource b).tokensFrom [] = after.tokensFrom [u] := tokensFrom_step hs hr
    obtain ⟨rest, rfl⟩ := isPrefix_tokensFrom (hstep.symm.trans htokens)
    exact Parse.not_ofTokens_of_stuck (f := ⟨u, rest⟩) hline (.here hstart) htree
  · intro t hs
    let plus : Token := .single .plus (ofSource b).place
    have hread : (ofSource b).readFrom '+' none = .ok ([plus], (ofSource b).advance) := rfl
    have hplus : (ofSource b).tokensFrom [] = (ofSource b).advance.tokensFrom [plus] :=
      tokensFrom_step hs hread
    obtain ⟨u, after, hr, hstart, -⟩ := readFrom_equals (ofSource b).advance (some plus)
    have hstep : (ofSource b).advance.tokensFrom [plus] = after.tokensFrom [u, plus] :=
      tokensFrom_step (rest_advance hs) hr
    obtain ⟨rest, rfl⟩ := isPrefix_tokensFrom ((hplus.trans hstep).symm.trans htokens)
    refine Parse.not_ofTokens_of_stuck (f := ⟨plus, u :: rest⟩) nofun ?_ htree
    exact .sign rfl (.here hstart)

namespace Parse

variable {A B : List Node} {P : List Node → Feed → Prop}

theorem exists_continuation {s : Span} {g : Feed} (hf : Feed.Holds f ls)
    (hy : Yields (program n) f (.list s B) g) :
    ∃ c : Continuation, c.tail = ls ++ [.endOfText] ∧ c.added = Node.shapes B ∧
      c.after = [.endOfText] :=
  ⟨⟨ls ++ [.endOfText], Node.shapes B, [.endOfText],
    fun _ _ _ hp => gathers_program hf hy hp, .inl rfl⟩, rfl, rfl, rfl⟩

def Continuation.ofEnd : Continuation :=
  ⟨[.keyword .endKw, .endOfText], [], [.keyword .endKw, .endOfText],
    fun _ _ _ hp => gathers_end hp, .inr rfl⟩

theorem exists_list_of_statements {p q : Progress} {a : Node}
    (h : statements n p = (.ok a, q)) : ∃ s first others, a = .list s (first :: others) := by
  cases n with
  | zero => cases h
  | succ n =>
    obtain ⟨s, first, others, _, rfl, -⟩ := statements_eq_ok h
    exact ⟨s, first, others, rfl⟩

theorem statements_ne_nil {s : Span} {g : Feed} (hy : Yields (program n) f (.list s B) g) :
    B ≠ [] := by
  obtain ⟨p, q, -, -, h⟩ := hy
  obtain ⟨_, first, others, hlist⟩ := exists_list_of_statements (program_eq_ok.mp h).1
  cases hlist
  nofun

theorem Continues.statements {c : Continuation} (hc : Continues ls c P) (hs : f.Sealed)
    (hf : f.lexemes = ls ++ .newline :: c.tail) :
    ∃ s C q, statements (fuelFor f.tokens.length) (.start f) = (.ok (.list s C), q) ∧
      P C q.feed := by
  obtain ⟨q, hq⟩ | h := hc (fuelFor f.tokens.length) (.start f) hf
  · exact (statements_settled hs q hq).elim
  · exact h

end Parse

namespace Source

variable {a b : Source} {m n : Node} {ts : List Token} {ls la : List Lexeme} {A : List Node}

theorem HasTree.exists_feed (h : a.HasTree m) (ht : a.tokens = .ok ts)
    (hls : ts.map (·.lexeme) = ls ++ [.endOfText]) (hend : .endOfText ∉ ls) :
    ∃ f g s A, f.tokens = ts ∧ Parse.Feed.Holds f ls ∧ m = .list s A ∧
      Parse.Yields (Parse.program (Parse.fuelFor f.tokens.length)) f (.list s A) g := by
  obtain ⟨ts', ht', htree⟩ := h
  cases ht.symm.trans ht'
  obtain ⟨f, rfl, hf, hsealed⟩ := Parse.exists_feed hls (by simp)
  obtain ⟨q, hq⟩ := Parse.ofTokens_eq_ok.mp htree
  have hy : Parse.Yields (Parse.program (Parse.fuelFor f.tokens.length)) f m q.feed :=
    ⟨.start f, q, rfl, rfl, hq⟩
  obtain ⟨us, -, s, A, rfl, -⟩ := Parse.program_accounts hsealed hy
  exact ⟨f, q.feed, s, A, rfl, ⟨hf, hend⟩, rfl, hy⟩

theorem HasTree.eq_list (h : a.HasTree m) : ∃ s A, m = .list s A := by
  obtain ⟨ts, -, h⟩ := h
  cases ts with
  | nil => cases h
  | cons t rest =>
    obtain ⟨q, hq⟩ := (Parse.ofTokens_eq_ok (f := ⟨t, rest⟩)).mp h
    obtain ⟨s, first, others, rfl⟩ := Parse.exists_list_of_statements (Parse.program_eq_ok.mp hq).1
    exact ⟨s, first :: others, rfl⟩

open Scanner in
theorem tokens_end (name : String) :
    ∃ ts, Source.tokens ⟨name, "end"⟩ = .ok ts ∧
      ts.map (·.lexeme) = [.keyword .endKw] ++ [.endOfText] := by
  let s := ofSource ⟨name, "end"⟩
  have hs : s.rest = ['e', 'n', 'd'] ++ [] := by simp [s, ofSource]
  have hdeclares : (s.skip ['e', 'n', 'd']).declares none = false := by
    rw [declares_eq ((sits_ofSource _).skip hs), rest_skip_append hs]
    rfl
  have hword : s.word none =
      ([], ⟨.keyword .endKw, s.place, (s.skip ['e', 'n', 'd']).place⟩, s.skip ['e', 'n', 'd']) := by
    have htake : s.rest.takeWhile isNameChar = ['e', 'n', 'd'] := by
      rw [hs]
      rfl
    have hkeyword : Keyword.ofText? (String.ofList ['e', 'n', 'd']) = some .endKw := rfl
    simp only [word, readWhile, htake, hdeclares, hkeyword]
    rfl
  have hread : s.readFrom 'e' ([] : List Token).head? =
      .ok ([⟨.keyword .endKw, s.place, (s.skip ['e', 'n', 'd']).place⟩],
        s.skip ['e', 'n', 'd']) := by
    rw [List.head?_nil, Scans.readFrom_word rfl, hword]
    rfl
  refine ⟨_, (tokensFrom_step hs hread).trans (tokensFrom_nil (rest_skip_append hs)), rfl⟩

/-- How a text goes on with an `end` tells whether it leaves a block open. -/
theorem leavesOpen_iff {s : Span} {f g : Feed} {k : Nat} (ht : a.tokens = .ok f.tokens)
    (hclosed : a.IsClosed) (hf : Parse.Feed.Holds f la)
    (hy : Parse.Yields (Parse.program k) f (.list s A) g) :
    (a.LeavesOpen ∧ Parse.LeavesOpen la A) ∨ (¬ a.LeavesOpen ∧ Parse.IsFollowed la A) := by
  obtain ⟨te, hte, hend⟩ := tokens_end a.name
  have hd : Scanner.Detached ('\n' :: "end".toList) := .line (by decide) (by simp)
  obtain ⟨la', le, tc, -, -, hla, hle, hc, htc⟩ :=
    tokens_concat ht hte (c := a.join ⟨a.name, "end"⟩) rfl (hclosed _ ht) hd
  obtain rfl : la' = la := List.append_cancel_right (hla.symm.trans hf.lexemes)
  obtain rfl : le = [.keyword .endKw] := List.append_cancel_right (hle.symm.trans hend)
  obtain ⟨fc, rfl, hfc, hsealed⟩ := Parse.exists_feed htc (by simp)
  obtain h | h := Parse.leavesOpen_or_isFollowed hf hy
  · refine .inl ⟨?_, h⟩
    obtain ⟨s, C, q, hq, -, hstop⟩ := (h .ofEnd).statements hsealed hfc
    refine ⟨.list s C, _, hc, Parse.ofTokens_eq_ok.mpr ⟨q, ?_⟩⟩
    exact Parse.program_eq_ok.mpr ⟨hq, hstop.current⟩
  · refine .inr ⟨?_, h⟩
    rintro ⟨tree, te', hte', htree⟩
    cases hc.symm.trans hte'
    obtain ⟨q', hq'⟩ := Parse.ofTokens_eq_ok.mp htree
    obtain ⟨s, C, q, hq, -, hafter⟩ := (h .ofEnd).statements hsealed hfc
    obtain ⟨hq', hstop⟩ := Parse.program_eq_ok.mp hq'
    cases hq.symm.trans hq'
    rw [Feed.current_of_lexemes hafter] at hstop
    cases hstop

/-- The statements of two joined texts, by whether the first one leaves a block open. -/
theorem HasTree.join (ha : a.HasTree m) (hb : b.HasTree n) (hclosed : a.IsClosed) :
    ∃ s A s' B s'' C, m = .list s A ∧ n = .list s' B ∧ B ≠ [] ∧
      (a.join b).HasTree (.list s'' C) ∧
      ((a.LeavesOpen ∧ Node.Absorbs (Node.shapes B) (.list default (Node.shapes A))
          (.list default (Node.shapes C))) ∨
        (¬ a.LeavesOpen ∧ Node.shapes C = Node.shapes A ++ Node.shapes B)) := by
  obtain ⟨ta, hta, -⟩ := id ha
  obtain ⟨tb, htb, -⟩ := id hb
  obtain ⟨la, lb, tc, hla, hlb, hmapa, hmapb, htc, hmapc⟩ :=
    tokens_concat hta htb (c := a.join b) rfl (hclosed ta hta) hb.detached
  obtain ⟨fa, ga, s, A, rfl, hfa, rfl, hya⟩ := ha.exists_feed hta hmapa hla
  obtain ⟨fb, gb, s', B, rfl, hfb, rfl, hyb⟩ := hb.exists_feed htb hmapb hlb
  obtain ⟨fc, rfl, hfc, hsealed⟩ := Parse.exists_feed hmapc (by simp [List.getLast?_cons])
  obtain ⟨c, hc, hadded, hafter⟩ := Parse.exists_continuation hfb hyb
  rw [← hc] at hfc
  have hne := Parse.statements_ne_nil hyb
  obtain ⟨ho, h⟩ | ⟨ho, h⟩ := leavesOpen_iff hta hclosed hfa hya
  · obtain ⟨s'', C, q, hq, habsorbs, hstop⟩ := (h c).statements hsealed hfc
    rw [hadded] at habsorbs
    have htree := Parse.ofTokens_eq_ok.mpr ⟨q, Parse.program_eq_ok.mpr ⟨hq, hstop.current⟩⟩
    exact ⟨s, A, s', B, s'', C, rfl, rfl, hne, ⟨_, htc, htree⟩, .inl ⟨ho, habsorbs⟩⟩
  · obtain ⟨s'', C, q, hq, hshapes, hleft⟩ := (h c).statements hsealed hfc
    rw [hadded] at hshapes
    have hstop := Feed.current_of_lexemes (hleft.trans hafter)
    have htree := Parse.ofTokens_eq_ok.mpr ⟨q, Parse.program_eq_ok.mpr ⟨hq, hstop⟩⟩
    exact ⟨s, A, s', B, s'', C, rfl, rfl, hne, ⟨_, htc, htree⟩, .inr ⟨ho, hshapes⟩⟩

/-- Two texts that can be read, the first with all its quotes closed, can be read when they are
joined by a line break. Up to places in the text, the statements of the second follow those of the
first just if the first text leaves no block open; an open block takes them in. -/
theorem join_statements (a b : Source) (m n : Node) (ha : a.HasTree m) (hb : b.HasTree n)
    (hclosed : a.IsClosed) :
    ∃ A B C joined, m.shape = .list default A ∧ n.shape = .list default B ∧
      (a.join b).HasTree joined ∧ joined.shape = .list default C ∧
      (C = A ++ B ↔ ¬ a.LeavesOpen) ∧
      (a.LeavesOpen → Node.Absorbs B (.list default A) (.list default C)) := by
  obtain ⟨s, A, s', B, s'', C, rfl, rfl, hne, hjoin, h⟩ := ha.join hb hclosed
  refine ⟨_, _, _, _, rfl, rfl, hjoin, rfl, ?_⟩
  obtain ⟨ho, habsorbs⟩ | ⟨ho, hshapes⟩ := h
  · refine ⟨⟨fun hC => ?_, fun hno => (hno ho).elim⟩, fun _ => habsorbs⟩
    have hlen := habsorbs.length_eq
    rw [hC, List.length_append] at hlen
    have hB : Node.shapes B ≠ [] := by
      cases B with
      | nil => exact (hne rfl).elim
      | cons => exact nofun
    exact (hB (List.length_eq_zero_iff.mp (by omega))).elim
  · exact ⟨⟨fun _ => ho, fun _ => hshapes⟩, fun h => (ho h).elim⟩

/-- An `if` without an `end` takes in the number on the next line. -/
theorem join_statements_if :
    ∃ A B C joined, (join ⟨"", "if 1 then\n2"⟩ ⟨"", "3"⟩).HasTree joined ∧
      joined.shape = .list default C ∧ C ≠ A ++ B ∧
      Node.Absorbs B (.list default A) (.list default C) := by
  obtain ⟨m, hm⟩ : ∃ m, (⟨"", "if 1 then\n2"⟩ : Source).HasTree m := by decide +kernel
  obtain ⟨n, hn⟩ : ∃ n, (⟨"", "3"⟩ : Source).HasTree n := by decide +kernel
  have hclosed : (⟨"", "if 1 then\n2"⟩ : Source).IsClosed := by decide +kernel
  have hopen : (⟨"", "if 1 then\n2"⟩ : Source).LeavesOpen := by decide +kernel
  obtain ⟨A, B, C, joined, -, -, hjoined, hC, hiff, habsorbs⟩ :=
    join_statements _ _ m n hm hn hclosed
  exact ⟨A, B, C, joined, hjoined, hC, fun h => hiff.mp h hopen, habsorbs hopen⟩

end Source

end Think
