import Think.Proofs.Parse.Fuel
import Think.Proofs.Parse.Place

/-! # Everything printed is read back

Each form of printing is read back by its production, whatever stands behind it as long as that
cannot go on the form. So a printed program is read back as the tree it was printed from.
-/

namespace Think

open Filter

namespace Parse

variable {p : Place} {n x y : Node} {ns : List Node} {a b ls : List Lexeme} {s : Span}

def MoreItemsRead (ns : List Node) (ls : List Lexeme) : Prop :=
  (∀ l o, l = .closeParen ∨ l = .closeSquare → ∃ c t, ls ++ l :: o = c :: t ∧ c.delimits) ∧
  ∀ l o, l = .closeParen ∨ l = .closeSquare → ∀ᶠ k in atTop,
    Reads (moreItems k) (ls ++ l :: o) (l :: o) (Node.shapes · = Node.shapes ns)

def ItemsRead (ns : List Node) (ls : List Lexeme) : Prop :=
  (ns = [] ∧ ls = []) ∨
  ∃ n ms a b, ns = n :: ms ∧ ls = a ++ b ∧ Fits .logic n a ∧ MoreItemsRead ms b

def StatementRead (p : Place) (n : Node) (ls : List Lexeme) : Prop :=
  (∃ c t, ls = c :: t ∧ c ≠ .newline) ∧
  ∀ l o, l.stops → (p = .whole → l.closes) → ∀ᶠ k in atTop,
    Reads (statement k) (ls ++ l :: o) (l :: o) (·.shape = n.shape)

def OperandRead (value : Option Node) (ls : List Lexeme) : Prop :=
  ∀ l o, l.stops → ∀ᶠ k in atTop, Reads (attempt (expression k)) (ls ++ l :: o) (l :: o)
    (Node.optionShape · = Node.optionShape value)

structure Tail (i : List Lexeme) (l : Lexeme) (o : List Lexeme) : Prop where
  breaks : ∃ k, i = .replicate k .newline ++ l :: o ∧ (k = 0 → l = .endOfText)
  endsBlock : l.endsBlock

def MoreStatementsRead (ns : List Node) (ls : List Lexeme) : Prop :=
  (∀ i l o, Tail i l o → ∃ c t, ls ++ i = c :: t ∧ c.closes) ∧
  ∀ i l o, Tail i l o → ∀ᶠ k in atTop,
    Reads (moreStatements k) (ls ++ i) (l :: o) (Node.shapes · = Node.shapes ns)

def StatementsRead (ns : List Node) (ls : List Lexeme) : Prop :=
  ∀ j i l o, Tail i l o → ∀ᶠ k in atTop,
    Reads (statements k) (.replicate j .newline ++ (ls ++ i)) (l :: o)
      (·.shape = (Node.list default ns).shape)

def BlockRead (n : Node) (ls : List Lexeme) : Prop :=
  ∃ t, ls = .newline :: t ∧ ∀ l o, l.endsBlock → ∀ᶠ k in atTop,
    Reads (statements k) (t ++ l :: o) (l :: o) (·.shape = n.shape)

def sameCases (cs ds : Cases) : Prop :=
  Node.caseShapes cs.1 = Node.caseShapes ds.1 ∧ Node.bodyShape cs.2 = Node.bodyShape ds.2

def CasesRead (lead : Keyword) (cs : Cases) (ls : List Lexeme) : Prop :=
  (∃ t, ls = .keyword lead :: t) ∧
  (lead ≠ .varKw → ∀ l o, l.closes → ∀ᶠ k in atTop,
    Reads (cases k lead) (ls ++ l :: o) (l :: o) (sameCases · cs))

def MoreCasesRead (cs : Cases) (ls : List Lexeme) : Prop :=
  (cs = ([], none) ∧ ls = [] ∨
    ∃ w t, ls = .keyword w :: t ∧ (w = .elifKw ∨ w = .elseKw)) ∧
  ∀ l o, l.closes → ∀ᶠ k in atTop,
    Reads (moreCases k) (ls ++ l :: o) (l :: o) (sameCases · cs)

def StepRead (z : Option Node) (ls : List Lexeme) : Prop :=
  (∀ o, ∃ c t, ls ++ .keyword .doKw :: o = c :: t ∧ c.delimits) ∧
  ∀ o, ∀ᶠ k in atTop, Reads (loopStep (expression k)) (ls ++ .keyword .doKw :: o)
    (.keyword .doKw :: o) (Node.optionShape · = Node.optionShape z)

def LoopBodyRead (body : Node × Bool) (ls : List Lexeme) : Prop :=
  (∃ t, ls = .keyword .doKw :: t) ∧
  ∀ l o, l.closes → ∀ᶠ k in atTop,
    Reads (loopBody k) (ls ++ l :: o) (l :: o) fun r => r.1.shape = body.1.shape ∧ r.2 = body.2

/-- What is read back from the lexemes of a form. -/
def ReadBack : Form → List Lexeme → Prop
  | .bare n => Fits n.place n
  | .operand p n => Fits p n
  | .items ns => ItemsRead ns
  | .moreItems ns => MoreItemsRead ns
  | .statement p n => StatementRead p n
  | .statements ns => StatementsRead ns
  | .moreStatements ns => MoreStatementsRead ns
  | .block n => BlockRead n
  | .cases lead cs => CasesRead lead cs
  | .moreCases cs => MoreCasesRead cs
  | .step z => StepRead z
  | .loopBody body => LoopBodyRead body
  | .program ns => fun ls => ∀ᶠ k in atTop,
      Reads (program k) (ls ++ [.endOfText]) [.endOfText] (·.shape = (Node.list default ns).shape)

theorem number_reads (v : Numeral) : Fits .atom (.number s v) [v.lexeme] := by
  refine .of_atom (by cases v <;> exact ⟨.atom, rfl, by decide⟩) fun l o => eventually_succ.mp ?_
  refine .of_forall fun k => ?_
  change Reads (atom (k + 1)) _ _ _
  rw [atom]
  apply Reads.current
  intro t ht
  rw [ht]
  cases v <;> exact .pass (by simp) (.ret rfl)

theorem text_reads (t : String) : Fits .atom (.text s t) [.text t] := by
  refine .of_atom ⟨.atom, rfl, by decide⟩ fun l o => eventually_succ.mp <| .of_forall fun k => ?_
  change Reads (atom (k + 1)) _ _ _
  rw [atom]
  apply Reads.current
  intro t ht
  rw [ht]
  exact .pass (by simp) (.ret rfl)

theorem access_reads (name : String) : Fits .atom (.access s name) [.name name] := by
  refine .of_atom ⟨.atom, rfl, by decide⟩ fun l o => eventually_succ.mp <| .of_forall fun k => ?_
  change Reads (atom (k + 1)) _ _ _
  rw [atom]
  apply Reads.current
  intro t ht
  rw [ht]
  exact .pass (by simp) (.ret rfl)

theorem paren_reads (h : Fits .whole n a) : Fits .atom n (.openParen :: (a ++ [.closeParen])) := by
  refine .of_atom ⟨.atom, rfl, by decide⟩ fun l o => eventually_succ.mp ?_
  filter_upwards [h.whole (o := l :: o) (show Lexeme.closeParen.closes from rfl)] with k hk
  change Reads (atom (k + 1)) _ _ _
  rw [atom]
  simp only [List.cons_append, List.append_assoc, List.nil_append]
  apply Reads.current
  intro t ht
  rw [ht]
  refine .pass (by simp) <| hk.part.bind fun b hb => .lexeme ?_
  exact .pass (by simp) (.ret hb)

theorem noMoreItems_reads : MoreItemsRead [] [] := by
  refine ⟨fun l o hl => ⟨l, o, rfl, by obtain rfl | rfl := hl <;> rfl⟩, fun l o hl => ?_⟩
  refine eventually_succ.mp <| .of_forall fun k => ?_
  rw [moreItems]
  apply Reads.lexeme
  obtain rfl | rfl := hl <;> exact .ret rfl

theorem moreItems_reads (hn : Fits .logic n a) (hns : MoreItemsRead ns b) :
    MoreItemsRead (n :: ns) (.comma :: (a ++ b)) := by
  obtain ⟨hnext, hreads⟩ := hns
  refine ⟨fun l o _ => ⟨.comma, a ++ b ++ l :: o, rfl, rfl⟩, fun l o hl => ?_⟩
  obtain ⟨c, t, hct, hc⟩ := hnext l o hl
  have hfirst := hn.expression (o := t) (by decide) hc
  apply eventually_succ.mp
  filter_upwards [hfirst, hreads l o hl] with k hk hks
  rw [moreItems]
  simp only [List.cons_append, List.append_assoc, hct] at hks ⊢
  refine .lexeme <| .pass (by simp) <| hk.part.bind fun m hm => hks.bind fun ms hms => .ret ?_
  rw [Node.shapes, Node.shapes, hm, hms]

theorem list_reads (h : ItemsRead ns a) :
    Fits .atom (.list s ns) (.openSquare :: (a ++ [.closeSquare])) := by
  apply Fits.of_atom ⟨.atom, rfl, by decide⟩
  intro l o
  have hlist : ∀ᶠ k in atTop, Reads (listLiteral k) (.openSquare :: (a ++ .closeSquare :: l :: o))
      (l :: o) (·.shape = (Node.list s ns).shape) := by
    obtain ⟨rfl, rfl⟩ | ⟨n, ms, a, b, rfl, rfl, hn, hnext, hms⟩ := h
    · refine eventually_succ.mp <| .of_forall fun k => ?_
      rw [listLiteral]
      refine .current fun t _ => .lexeme <| .pass (by simp) <| .lexeme <| .pass (by simp) ?_
      exact .current fun t _ => .ret rfl
    · obtain ⟨c, t, hct, hc⟩ := hnext .closeSquare (l :: o) (.inr rfl)
      have hfirst := hn.expression (o := t) (by decide) hc
      obtain ⟨d, u, rfl, q, hq, _⟩ := hn.starts
      apply eventually_succ.mp
      filter_upwards [hfirst, hms .closeSquare (l :: o) (.inr rfl)] with k hk hks
      rw [listLiteral]
      simp only [List.append_assoc, hct] at hks ⊢
      refine .current fun t _ => .lexeme <| .pass (by simp) <| .lexeme ?_
      split
      · cases hq
      · refine hk.partOr.bind fun m hm => hks.bind fun ms hms => .lexeme <| .pass (by simp) ?_
        refine .current fun t _ => .ret ?_
        rw [Node.shape, Node.shape, Node.shapes, Node.shapes, hm, hms]
  apply eventually_succ.mp
  filter_upwards [hlist] with k hk
  change Reads (atom (k + 1)) _ _ _
  rw [atom]
  simp only [List.cons_append, List.append_assoc, List.nil_append]
  apply Reads.current
  intro t ht
  rw [ht]
  exact hk.part

theorem call_reads (hn : Fits .atom n a) (h : ItemsRead ns b) :
    Fits .call (.call s n ns) (a ++ .openParen :: (b ++ [.closeParen])) := by
  obtain ⟨c, t, rfl, hc⟩ := hn.starts
  refine ⟨⟨c, _, rfl, hc.loosen (by decide)⟩, fun l o _ => ?_,
    fun level hlevel => by cases level <;> cases hlevel⟩
  have hcallee := fun i => hn.reads .openParen i
    ⟨fun h => absurd h (by decide), fun level => by cases level <;> decide, by simp⟩
  obtain ⟨rfl, rfl⟩ | ⟨m, ms, b, d, rfl, rfl, hm, hnext, hms⟩ := h
  · apply eventually_succ.mp
    filter_upwards [hcallee (.closeParen :: l :: o)] with k hk
    change Reads (call (k + 1)) _ _ _
    rw [call]
    simp only [List.append_assoc, List.cons_append, List.nil_append] at hk ⊢
    refine hk.part.bind fun r hr => .lexeme <| .pass (by simp) <| .lexeme <| ?_
    refine .pass (by simp) <| .ret ?_
    rw [callNode, Node.shape, Node.shape, hr]
  · obtain ⟨e, u, heu, he⟩ := hnext .closeParen (l :: o) (.inl rfl)
    have hfirst := hm.expression (o := u) (by decide) he
    obtain ⟨f, v, rfl, q, hq, _⟩ := hm.starts
    apply eventually_succ.mp
    filter_upwards [hcallee (f :: v ++ e :: u), hfirst, hms .closeParen (l :: o) (.inl rfl)]
      with k hk hkm hkms
    change Reads (call (k + 1)) _ _ _
    rw [call]
    simp only [List.append_assoc, List.cons_append, List.nil_append, heu] at hk hkm hkms ⊢
    refine hk.part.bind fun r hr => .lexeme <| .pass (by simp) <| .lexeme ?_
    split
    · cases hq
    · refine hkm.partOr.bind fun r₁ hr₁ => hkms.bind fun rs hrs => .lexeme <| ?_
      refine .pass (by simp) <| .ret ?_
      rw [callNode, Node.shape, Node.shape, Node.shapes, Node.shapes, hr, hr₁, hrs]

theorem unary_reads {op : UnaryOp} (hn : Fits op.place n a) :
    Fits op.place (.unary s op n) (op.lexeme :: a) := by
  have hlevel : ∀ level : Level, level.place ≠ op.place := by
    intro level
    cases level <;> cases op <;> decide
  refine ⟨⟨op.lexeme, a, rfl, op.place, by cases op <;> rfl, Nat.le_refl _⟩, fun l o hl => ?_,
    fun level h => (hlevel level h).elim⟩
  apply eventually_succ.mp
  filter_upwards [hn.reads l o hl] with k hk
  cases op with
  | not =>
    change Reads (negation (k + 1)) _ _ _
    rw [negation]
    apply Reads.current
    intro t ht
    rw [ht]
    refine .pass (by simp) <| (Reads.part hk).bind fun r hr => .ret ?_
    rw [Node.shape, Node.shape, hr]
  | plus =>
    change Reads (factor (k + 1)) _ _ _
    rw [factor]
    apply Reads.current
    intro t ht
    rw [ht]
    refine .pass (by simp) <| (Reads.part hk).bind fun r hr => .ret ?_
    rw [Node.shape, Node.shape, hr]
  | minus =>
    change Reads (factor (k + 1)) _ _ _
    rw [factor]
    apply Reads.current
    intro t ht
    rw [ht]
    refine .pass (by simp) <| (Reads.part hk).bind fun r hr => .ret ?_
    rw [Node.shape, Node.shape, hr]

theorem level_op (op : BinaryOp) : op.level.op? op.lexeme = some op := by
  cases op <;> rfl

/-- Operators go on from the left operand with the right one and what its chain reads behind it. -/
theorem moreOperands_binary {op : BinaryOp} {l : Lexeme} {i o : List Lexeme} {P : Node → Prop}
    (hy : ReadsAt op.level.rightPlace y b l i)
    (hk : ∀ᶠ k in atTop, ∀ r : Node, r.shape = (Node.binary s op x y).shape →
      Reads (moreOperands k op.level r) (l :: i) o P) :
    ∀ᶠ k in atTop, ∀ r : Node, r.shape = x.shape →
      Reads (moreOperands k op.level r) (op.lexeme :: (b ++ l :: i)) o P := by
  have hright := eventually_rightOperand op.level
    (Q := fun z => Reads z (b ++ l :: i) (l :: i) (·.shape = y.shape)) hy
  apply eventually_succ.mp
  filter_upwards [hright, hk] with k hr hmore r hrx
  rw [moreOperands_succ]
  apply Reads.lexeme
  rw [level_op]
  refine .pass (by simp) <| hr.part.bind fun z hz => hmore _ ?_
  rw [joined, Node.shape, Node.shape, hrx, hz]

/-- An operator other than that of powers ends its left operand. -/
theorem operator_ends {op : BinaryOp} (hp : op ≠ .pow) : Ends op.level.rightPlace op.lexeme where
  noCall _ := by cases op <;> simp [BinaryOp.lexeme]
  noOperator level h := by
    cases op <;> cases level <;> first | rfl | exact absurd h (by decide) | exact (hp rfl).elim
  closes h := by cases op <;> cases h

theorem power_ends : Ends .call .power where
  noCall _ := by simp
  noOperator level h := by cases level <;> first | rfl | exact absurd h (by decide)
  closes h := by cases h

theorem binary_reads {op : BinaryOp} (hx : Fits op.level.leftPlace x a)
    (hy : Fits op.level.rightPlace y b) :
    Fits op.level.place (.binary s op x y) (a ++ op.lexeme :: b) := by
  have hext : Extends op.level (.binary s op x y) (a ++ op.lexeme :: b) := by
    intro l i o P hl hk
    have hmore := moreOperands_binary (hy.reads l i hl) hk
    rw [List.append_assoc]
    by_cases hp : op = .pow
    · subst hp
      exact chain_reads (hx.reads .power _ power_ends) hmore
    · have hleft : op.level.place = op.level.leftPlace := by
        cases op <;> first | rfl | exact (hp rfl).elim
      exact hx.goesOn op.level hleft _ _ _ _ (operator_ends hp) hmore
  obtain ⟨c, t, rfl, hc⟩ := hx.starts
  have hle : op.level.place ≤ op.level.leftPlace := by cases op <;> decide
  refine ⟨⟨c, _, rfl, hc.loosen hle⟩, fun l o hl => ?_, fun level hlevel => ?_⟩
  · have hend := hext l o (l :: o) (·.shape = (Node.binary s op x y).shape) hl.right <|
      eventually_succ.mp <| .of_forall fun k r hr =>
        moreOperands_reads (hl.noOperator op.level (Nat.le_refl _)) k hr
    cases op <;> exact hend
  · have : level = op.level := by cases level <;> cases op <;> first | rfl | cases hlevel
    exact this ▸ hext

theorem assign_reads {name : String} (hn : Fits .logic n a) :
    Fits .whole (.assign s name n) (.keyword .varKw :: .name name :: .assign :: a) := by
  refine ⟨⟨.keyword .varKw, _, rfl, .whole, rfl, by decide⟩, fun l o hl => ?_,
    fun level h => by cases level <;> cases h⟩
  have hclose := Lexeme.delimits_of_stops (Lexeme.stops_of_closes (hl.closes rfl))
  apply eventually_succ.mp
  filter_upwards [hn.expression (o := o) (by decide) hclose] with k hk
  change Reads (expression (k + 1)) _ _ _
  rw [expression]
  refine .lexeme <| .pass (by simp) <| .bind (.identifier (by simp)) fun i hi => ?_
  refine .bind (.assignSign (by simp)) fun _ _ => hk.part.bind fun r hr => .ret ?_
  rw [Node.shape, Node.shape, hi, hr]

theorem import_reads (written : String) :
    Fits .whole (.importFile s (importPath written)) [.keyword .importKw, .text written] := by
  refine ⟨⟨.keyword .importKw, _, rfl, .whole, rfl, by decide⟩, fun l o _ => ?_,
    fun level h => by cases level <;> cases h⟩
  refine eventually_succ.mp <| .of_forall fun k => ?_
  change Reads (expression (k + 1)) _ _ _
  rw [expression]
  refine .lexeme <| .pass (by simp) <| .current fun t ht => ?_
  rw [ht]
  exact .pass (by simp) (.ret rfl)

theorem expression_fails {l : Lexeme} (h : l.stops ∨ l.endsBlock) :
    ∀ᶠ k in atTop, Fails (expression k) l := by
  refine place_fails ?_ .whole
  cases l with
  | keyword w => cases w <;> first | rfl | simp [Lexeme.stops, Lexeme.closes, Lexeme.endsBlock] at h
  | _ => first | rfl | simp [Lexeme.stops, Lexeme.closes, Lexeme.endsBlock] at h

theorem statement_fails {l : Lexeme} (h : l.endsBlock) : ∀ᶠ k in atTop, Fails (statement k) l := by
  apply eventually_succ.mp
  filter_upwards [expression_fails (.inr h)] with k hk
  rw [statement]
  refine .current fun t _ => .lexeme ?_
  split <;> first | exact hk.partOr | cases h

theorem noOperand_reads : OperandRead none [] := by
  intro l o hl
  filter_upwards [expression_fails (.inl hl)] with k hk
  exact hk.attempt.mono fun r hr => by rw [hr]

theorem operand_reads (hn : Fits .logic n a) : OperandRead (some n) a := by
  intro l o hl
  filter_upwards [hn.expression (o := o) (by decide) (Lexeme.delimits_of_stops hl)] with k hk
  apply hk.attempt.mono
  rintro _ ⟨m, rfl, hm⟩
  rw [Node.optionShape, Node.optionShape, hm]

theorem return_reads {value : Option Node} (h : OperandRead value a) :
    StatementRead p (.ret s value) (.keyword .returnKw :: a) := by
  refine ⟨⟨_, _, rfl, by simp⟩, fun l o hl _ => eventually_succ.mp ?_⟩
  filter_upwards [h l o hl] with k hk
  rw [statement]
  refine .current fun t _ => .lexeme <| .pass (by simp) <| hk.bind fun r hr => ?_
  exact .current fun t _ => .ret (by rw [Node.shape, Node.shape, hr])

theorem think_reads {value : Option Node} (h : OperandRead value a) :
    StatementRead p (.think s value) (.keyword .thinkKw :: a) := by
  refine ⟨⟨_, _, rfl, by simp⟩, fun l o hl _ => eventually_succ.mp ?_⟩
  filter_upwards [h l o hl] with k hk
  rw [statement]
  refine .current fun t _ => .lexeme <| .pass (by simp) <| hk.bind fun r hr => ?_
  exact .current fun t _ => .ret (by rw [Node.shape, Node.shape, hr])

theorem continue_reads : StatementRead p (.continueLoop s) [.keyword .continueKw] := by
  refine ⟨⟨_, _, rfl, by simp⟩, fun l o _ _ => eventually_succ.mp <| .of_forall fun k => ?_⟩
  rw [statement]
  exact .current fun t _ => .lexeme <| .pass (by simp) <| .current fun t _ => .ret rfl

theorem break_reads : StatementRead p (.breakLoop s) [.keyword .breakKw] := by
  refine ⟨⟨_, _, rfl, by simp⟩, fun l o _ _ => eventually_succ.mp <| .of_forall fun k => ?_⟩
  rw [statement]
  exact .current fun t _ => .lexeme <| .pass (by simp) <| .current fun t _ => .ret rfl

theorem statement_reads (hn : Fits p n a) : StatementRead p n a := by
  obtain ⟨c, t, rfl, q, hq, _⟩ := hn.starts
  refine ⟨⟨c, t, rfl, by rintro rfl; cases hq⟩, fun l o hl hw => eventually_succ.mp ?_⟩
  have hexpr : ∀ᶠ k in atTop,
      Reads (expression k) (c :: t ++ l :: o) (l :: o) (·.shape = n.shape) := by
    by_cases hp : p = .whole
    · subst hp
      exact hn.whole (hw rfl)
    · exact hn.expression (by cases p <;> first | decide | exact (hp rfl).elim)
        (Lexeme.delimits_of_stops hl)
  filter_upwards [hexpr] with k hk
  rw [statement]
  refine .current fun t _ => .lexeme ?_
  split <;> first | exact hk.partOr | cases hq

theorem Tail.closes {i o : List Lexeme} {l : Lexeme} (h : Tail i l o) :
    ∃ c t, i = c :: t ∧ c.closes := by
  obtain ⟨⟨k, rfl, hk⟩, _⟩ := h
  cases k with
  | zero =>
    obtain rfl := hk rfl
    exact ⟨.endOfText, o, rfl, rfl⟩
  | succ k => exact ⟨.newline, _, rfl, rfl⟩

theorem noMoreStatements_reads : MoreStatementsRead [] [] := by
  refine ⟨fun i l o h => h.closes, fun i l o h => eventually_succ.mp ?_⟩
  obtain ⟨⟨j, rfl, _⟩, hl⟩ := h
  have hne : l ≠ .newline := by
    rintro rfl
    cases hl
  filter_upwards [statement_fails hl] with k hk
  rw [moreStatements]
  apply Reads.bind (.newlines hne)
  intro c _
  split
  · exact .ret rfl
  · apply hk.attempt.bind
    intro r hr
    subst hr
    exact .ret rfl

theorem moreStatements_reads (j : Nat) (hn : StatementRead .whole n a)
    (hns : MoreStatementsRead ns b) :
    MoreStatementsRead (n :: ns) (.replicate (j + 1) .newline ++ (a ++ b)) := by
  obtain ⟨⟨c, t, rfl, hc⟩, hstmt⟩ := hn
  obtain ⟨hnext, hmore⟩ := hns
  refine ⟨fun i l o h => ⟨.newline, _, rfl, rfl⟩, fun i l o h => eventually_succ.mp ?_⟩
  obtain ⟨d, u, hdu, hd⟩ := hnext i l o h
  filter_upwards [hstmt d u (Lexeme.stops_of_closes hd) fun _ => hd, hmore i l o h] with k hk hks
  rw [moreStatements]
  simp only [List.append_assoc, List.cons_append, hdu] at hk hks ⊢
  apply Reads.bind (.newlines hc)
  intro m hm
  rw [if_neg (by omega)]
  apply hk.attempt.bind
  intro r hr
  obtain ⟨x, rfl, hx⟩ := hr
  refine hks.bind fun xs hxs => .ret ?_
  rw [Node.shapes, Node.shapes, hx, hxs]

theorem statements_reads (hn : StatementRead .whole n a) (hns : MoreStatementsRead ns b) :
    StatementsRead (n :: ns) (a ++ b) := by
  obtain ⟨⟨c, t, rfl, hc⟩, hstmt⟩ := hn
  obtain ⟨hnext, hmore⟩ := hns
  intro j i l o h
  apply eventually_succ.mp
  obtain ⟨d, u, hdu, hd⟩ := hnext i l o h
  filter_upwards [hstmt d u (Lexeme.stops_of_closes hd) fun _ => hd, hmore i l o h] with k hk hks
  rw [statements]
  simp only [List.append_assoc, List.cons_append, hdu] at hk hks ⊢
  refine .current_any fun _ => .bind (.newlines hc) fun _ _ => hk.part.bind fun r hr => ?_
  refine hks.bind fun rs hrs => .current_any fun _ => .ret ?_
  rw [Node.shape, Node.shape, Node.shapes, Node.shapes, hr, hrs]

theorem block_reads (j k : Nat) (h : StatementsRead ns a) :
    BlockRead (.list s ns) (.replicate (j + 1) .newline ++ (a ++ .replicate (k + 1) .newline)) := by
  refine ⟨.replicate j .newline ++ (a ++ .replicate (k + 1) .newline), rfl, fun l o hl => ?_⟩
  have ht : Tail (.replicate (k + 1) .newline ++ l :: o) l o := ⟨⟨k + 1, rfl, by simp⟩, hl⟩
  filter_upwards [h j _ l o ht] with m hm
  simp only [List.append_assoc] at hm ⊢
  exact hm

theorem program_reads (j k : Nat) (h : StatementsRead ns a) : ∀ᶠ m in atTop,
    Reads (program m) (.replicate j .newline ++ (a ++ .replicate k .newline) ++ [.endOfText])
      [.endOfText] (·.shape = (Node.list default ns).shape) := by
  have ht : Tail (.replicate k .newline ++ [.endOfText]) .endOfText [] := ⟨⟨k, rfl, by simp⟩, rfl⟩
  filter_upwards [h j _ .endOfText [] ht] with m hm
  simp only [List.append_assoc] at hm ⊢
  exact hm.bind fun r hr => .lexeme (.ret hr)

theorem sameCases_cons {c c' n' : Node} {k : Bool} {cs ds : List (Node × Node × Bool)}
    {f g : Option (Node × Bool)} (hc : c'.shape = c.shape) (hn : n'.shape = n.shape)
    (h : sameCases (ds, g) (cs, f)) : sameCases ((c', n', k) :: ds, g) ((c, n, k) :: cs, f) := by
  refine ⟨?_, h.2⟩
  rw [Node.caseShapes, Node.caseShapes, hc, hn, h.1]

theorem MoreCasesRead.next {cs : Cases} {d o : List Lexeme} {l : Lexeme} (h : MoreCasesRead cs d)
    (hl : l.closes) : ∃ g u, d ++ l :: o = g :: u ∧ g.stops := by
  obtain ⟨⟨_, rfl⟩ | ⟨w, t, rfl, rfl | rfl⟩, _⟩ := h
  · exact ⟨l, o, rfl, Lexeme.stops_of_closes hl⟩
  · exact ⟨_, _, rfl, rfl⟩
  · exact ⟨_, _, rfl, rfl⟩

section

variable {lead : Keyword} {c : Node} {cs : List (Node × Node × Bool)} {f : Option (Node × Bool)}
  {d : List Lexeme}

theorem isVarText_keyword (h : lead ≠ .varKw) : (Lexeme.keyword lead).isVarText = false := by
  cases lead <;> first | rfl | exact (h rfl).elim

theorem inlineCase_reads (hc : Fits .logic c a) (hn : StatementRead .logic n b)
    (hcs : MoreCasesRead (cs, f) d) :
    CasesRead lead ((c, n, false) :: cs, f)
      (.keyword lead :: (a ++ .keyword .thenKw :: (b ++ d))) := by
  refine ⟨⟨_, rfl⟩, fun hlead l o hl => eventually_succ.mp ?_⟩
  obtain ⟨⟨e, t, rfl, he⟩, hstmt⟩ := hn
  obtain ⟨g, u, hgu, hg⟩ := hcs.next (o := o) hl
  filter_upwards [hc.expression (l := .keyword .thenKw) (o := e :: (t ++ g :: u)) (by decide) rfl,
    hstmt g u hg (by simp), hcs.2 l o hl] with k hkc hkn hkcs
  rw [cases]
  simp only [List.append_assoc, List.cons_append, hgu] at hkc hkn hkcs ⊢
  apply Reads.bind (.optionalVar_absent (isVarText_keyword hlead))
  intro _ _
  refine .bind (.keyword (by simp)) fun _ _ => hkc.part.bind fun c' hc' => ?_
  refine .bind (.keyword (by simp)) fun _ _ => .lexeme ?_
  split
  · exact (he rfl).elim
  · refine hkn.part.bind fun n' hn' => hkcs.part.bind fun cs' hcs' => .ret ?_
    exact sameCases_cons hc' hn' hcs'

theorem blockCase_reads (hc : Fits .logic c a) (hn : BlockRead n b) (hlast : (cs, f) ≠ ([], none))
    (hcs : MoreCasesRead (cs, f) d) :
    CasesRead lead ((c, n, true) :: cs, f)
      (.keyword lead :: (a ++ .keyword .thenKw :: (b ++ d))) := by
  refine ⟨⟨_, rfl⟩, fun hlead l o hl => eventually_succ.mp ?_⟩
  obtain ⟨t, rfl, hblock⟩ := hn
  obtain ⟨⟨h, _⟩ | ⟨w, u, rfl, hw⟩, hmore⟩ := hcs
  · exact (hlast h).elim
  have hends : (Lexeme.keyword w).endsBlock := by obtain rfl | rfl := hw <;> rfl
  have hend : Lexeme.keyword w ≠ .keyword .endKw := by obtain rfl | rfl := hw <;> simp
  filter_upwards [hc.expression (l := .keyword .thenKw)
      (o := .newline :: (t ++ .keyword w :: (u ++ l :: o))) (by decide) rfl,
    hblock _ (u ++ l :: o) hends, hmore l o hl] with k hkc hkn hkcs
  rw [cases]
  simp only [List.append_assoc, List.cons_append] at hkc hkn hkcs ⊢
  apply Reads.bind (.optionalVar_absent (isVarText_keyword hlead))
  intro _ _
  refine .bind (.keyword (by simp)) fun _ _ => hkc.part.bind fun c' hc' => ?_
  refine .bind (.keyword (by simp)) fun _ _ => .lexeme <| .pass (by simp) ?_
  refine hkn.part.bind fun n' hn' => .ifNotKeyword hend <| hkcs.part.bind fun cs' hcs' => .ret ?_
  exact sameCases_cons hc' hn' hcs'

theorem lastBlockCase_reads (hc : Fits .logic c a) (hn : BlockRead n b) :
    CasesRead lead ([(c, n, true)], none)
      (.keyword lead :: (a ++ .keyword .thenKw :: (b ++ [.keyword .endKw]))) := by
  refine ⟨⟨_, rfl⟩, fun hlead l o _ => eventually_succ.mp ?_⟩
  obtain ⟨t, rfl, hblock⟩ := hn
  filter_upwards [hc.expression (l := .keyword .thenKw)
      (o := .newline :: (t ++ .keyword .endKw :: l :: o)) (by decide) rfl,
    hblock (.keyword .endKw) (l :: o) rfl] with k hkc hkn
  rw [cases]
  simp only [List.append_assoc, List.cons_append, List.nil_append] at hkc hkn ⊢
  apply Reads.bind (.optionalVar_absent (isVarText_keyword hlead))
  intro _ _
  refine .bind (.keyword (by simp)) fun _ _ => hkc.part.bind fun c' hc' => ?_
  refine .bind (.keyword (by simp)) fun _ _ => .lexeme <| .pass (by simp) ?_
  refine hkn.part.bind fun n' hn' => .ifKeyword <| .pass (by simp) <| .ret ?_
  exact sameCases_cons hc' hn' ⟨rfl, rfl⟩

end

theorem moreCases_of_fallback {f : Option (Node × Bool)} {c : Lexeme} {i o : List Lexeme}
    (hc : c ≠ .keyword .elifKw)
    (h : ∀ᶠ k in atTop, Reads (fallback k) (c :: i) o (Node.bodyShape · = Node.bodyShape f)) :
    ∀ᶠ k in atTop, Reads (moreCases k) (c :: i) o (sameCases · ([], f)) := by
  apply eventually_succ.mp
  filter_upwards [h] with k hk
  rw [moreCases]
  exact .ifNotKeyword hc <| hk.part.bind fun r hr => .ret ⟨rfl, hr⟩

theorem noMoreCases_reads : MoreCasesRead ([], none) [] := by
  refine ⟨.inl ⟨rfl, rfl⟩, fun l o hl => ?_⟩
  refine moreCases_of_fallback (by rintro rfl; cases hl) <| eventually_succ.mp ?_
  refine .of_forall fun k => ?_
  rw [fallback]
  exact .ifNotKeyword (by rintro rfl; cases hl) (.ret rfl)

theorem elifCases_reads {cs : Cases} (h : CasesRead .elifKw cs a) : MoreCasesRead cs a := by
  obtain ⟨⟨t, rfl⟩, hreads⟩ := h
  refine ⟨.inr ⟨_, t, rfl, .inl rfl⟩, fun l o hl => eventually_succ.mp ?_⟩
  filter_upwards [hreads (by simp) l o hl] with k hk
  rw [moreCases]
  exact .ifKeyword hk.part

/-- The statement behind an `else` may be a branch itself, as nothing of this one follows it. -/
theorem inlineElse_reads (hn : StatementRead p n a) :
    MoreCasesRead ([], some (n, false)) (.keyword .elseKw :: a) := by
  obtain ⟨⟨e, t, rfl, he⟩, hstmt⟩ := hn
  refine ⟨.inr ⟨_, _, rfl, .inr rfl⟩, fun l o hl => ?_⟩
  refine moreCases_of_fallback (by simp) <| eventually_succ.mp ?_
  filter_upwards [hstmt l o (Lexeme.stops_of_closes hl) fun _ => hl] with k hk
  rw [fallback]
  refine .ifKeyword <| .pass (by simp) <| .lexeme ?_
  split
  · exact (he rfl).elim
  · refine hk.part.bind fun r hr => .ret ?_
    rw [Node.bodyShape, Node.bodyShape, hr]

theorem blockElse_reads (hn : BlockRead n a) :
    MoreCasesRead ([], some (n, true)) (.keyword .elseKw :: (a ++ [.keyword .endKw])) := by
  obtain ⟨t, rfl, hblock⟩ := hn
  refine ⟨.inr ⟨_, _, rfl, .inr rfl⟩, fun l o hl => ?_⟩
  simp only [List.append_assoc, List.cons_append, List.nil_append]
  refine moreCases_of_fallback (by simp) <| eventually_succ.mp ?_
  filter_upwards [hblock (.keyword .endKw) (l :: o) rfl] with k hk
  rw [fallback]
  refine .ifKeyword <| .pass (by simp) <| .lexeme <| .pass (by simp) ?_
  refine hk.part.bind fun r hr => .bind (.keyword (by simp)) fun _ _ => .ret ?_
  rw [Node.bodyShape, Node.bodyShape, hr]

theorem shape_branchNode (cs : Cases) :
    (branchNode cs).shape = .branch default (Node.caseShapes cs.1) (Node.bodyShape cs.2) := rfl

theorem branch_reads {cs : List (Node × Node × Bool)} {f : Option (Node × Bool)}
    (h : CasesRead .ifKw (cs, f) a) : Fits .whole (.branch s cs f) a := by
  obtain ⟨⟨t, rfl⟩, hreads⟩ := h
  refine .of_closed_atom ⟨.atom, rfl, by decide⟩ fun l o hl =>
    eventually_succ.mp (eventually_succ.mp ?_)
  filter_upwards [hreads (by simp) l o hl] with k hk
  change Reads (atom (k + 2)) _ _ _
  rw [atom, branch]
  apply Reads.current
  intro t ht
  rw [ht]
  refine .part <| hk.part.bind fun r hr => .ret ?_
  rw [shape_branchNode, Node.shape, hr.1, hr.2]

theorem noStep_reads : StepRead none [] := by
  refine ⟨fun o => ⟨_, o, rfl, rfl⟩, fun o => .of_forall fun k => ?_⟩
  exact .ifNotKeyword (by simp) (.ret rfl)

theorem step_reads (hn : Fits .logic n a) : StepRead (some n) (.keyword .stepKw :: a) := by
  refine ⟨fun o => ⟨_, _, rfl, rfl⟩, fun o => ?_⟩
  filter_upwards [hn.expression (l := .keyword .doKw) (o := o) (by decide) rfl] with k hk
  refine .ifKeyword <| .pass (by simp) <| hk.part.bind fun r hr => .ret ?_
  rw [Node.optionShape, Node.optionShape, hr]

theorem inlineBody_reads (hn : StatementRead .logic n a) :
    LoopBodyRead (n, false) (.keyword .doKw :: a) := by
  obtain ⟨⟨e, t, rfl, he⟩, hstmt⟩ := hn
  refine ⟨⟨_, rfl⟩, fun l o hl => eventually_succ.mp ?_⟩
  filter_upwards [hstmt l o (Lexeme.stops_of_closes hl) (by simp)] with k hk
  rw [loopBody]
  refine .bind (.keyword (by simp)) fun _ _ => .lexeme ?_
  split
  · exact (he rfl).elim
  · exact hk.part.bind fun r hr => .ret ⟨hr, rfl⟩

theorem blockBody_reads (hn : BlockRead n a) :
    LoopBodyRead (n, true) (.keyword .doKw :: (a ++ [.keyword .endKw])) := by
  obtain ⟨t, rfl, hblock⟩ := hn
  refine ⟨⟨_, rfl⟩, fun l o _ => eventually_succ.mp ?_⟩
  filter_upwards [hblock (.keyword .endKw) (l :: o) rfl] with k hk
  rw [loopBody]
  simp only [List.append_assoc, List.cons_append, List.nil_append]
  refine .bind (.keyword (by simp)) fun _ _ => .lexeme <| .pass (by simp) ?_
  exact hk.part.bind fun r hr => .bind (.keyword (by simp)) fun _ _ => .ret ⟨hr, rfl⟩

theorem whileLoop_reads {k : Bool} (hx : Fits .logic x a) (hn : LoopBodyRead (n, k) b) :
    Fits .whole (.whileLoop s x n k) (.keyword .whileKw :: (a ++ b)) := by
  obtain ⟨⟨t, rfl⟩, hbody⟩ := hn
  refine .of_closed_atom ⟨.atom, rfl, by decide⟩ fun l o hl =>
    eventually_succ.mp (eventually_succ.mp ?_)
  filter_upwards [hx.expression (l := .keyword .doKw) (o := t ++ l :: o) (by decide) rfl,
    hbody l o hl] with m hm hmb
  change Reads (atom (m + 2)) _ _ _
  rw [atom, whileLoop]
  simp only [List.append_assoc, List.cons_append] at hm hmb ⊢
  apply Reads.current
  intro t ht
  rw [ht]
  refine .part <| .bind (.keyword (by simp)) fun _ _ => hm.part.bind fun x' hx' => ?_
  refine hmb.bind fun r hr => .ret ?_
  rw [Node.shape, Node.shape, hx', hr.1, hr.2]

theorem optionalVar_reads {v i : List Lexeme} {name : String} (hv : OptionalVar v)
    (hname : v = [] → name ≠ "var") :
    Reads optionalVar (v ++ .name name :: i) (.name name :: i) fun _ => True := by
  cases hv with
  | absent => exact .optionalVar_absent (by simpa [Lexeme.isVarText] using hname rfl)
  | present hl => exact .optionalVar_present hl (by simp)

theorem forLoop_reads {name : String} {z : Option Node} {k : Bool} {v c d : List Lexeme}
    (hv : OptionalVar v) (hname : v = [] → name ≠ "var") (hx : Fits .logic x a)
    (hy : Fits .logic y b) (hz : StepRead z c) (hn : LoopBodyRead (n, k) d) :
    Fits .whole (.forLoop s name x y z n k)
      (.keyword .forKw ::
        (v ++ .name name :: .assign :: (a ++ .keyword .toKw :: (b ++ (c ++ d))))) := by
  obtain ⟨⟨t, rfl⟩, hbody⟩ := hn
  refine .of_closed_atom ⟨.atom, rfl, by decide⟩ fun l o hl =>
    eventually_succ.mp (eventually_succ.mp ?_)
  obtain ⟨e, u, heu, he⟩ := hz.1 (t ++ l :: o)
  filter_upwards [hx.expression (l := .keyword .toKw) (o := b ++ e :: u) (by decide) rfl,
    hy.expression (o := u) (by decide) he, hz.2 (t ++ l :: o), hbody l o hl] with m hmx hmy hmz hmb
  change Reads (atom (m + 2)) _ _ _
  rw [atom, forLoop]
  simp only [List.append_assoc, List.cons_append, heu] at hmx hmy hmz hmb ⊢
  apply Reads.current
  intro t ht
  rw [ht]
  refine .part <| .bind (.keyword (by simp)) fun _ _ => ?_
  refine .bind (optionalVar_reads hv hname) fun _ _ => .bind (.identifier (by simp)) fun i hi => ?_
  refine .bind (.assignSign (by simp)) fun _ _ => hmx.part.bind fun x' hx' => ?_
  refine .bind (.keyword (by simp)) fun _ _ => hmy.part.bind fun y' hy' => ?_
  refine hmz.bind fun z' hz' => hmb.bind fun r hr => .ret ?_
  rw [Node.shape, Node.shape, hi, hx', hy', hz', hr.1, hr.2]

theorem functionName_reads (name : Option String) (i : List Lexeme) :
    Reads functionName (nameLexemes name ++ .openParen :: i) (.openParen :: i)
      (·.map (·.1) = name) := by
  cases name with
  | none => exact .lexeme (.ret rfl)
  | some name =>
    apply Reads.lexeme
    dsimp only
    rw [map_eq_pure_bind]
    exact .bind (.identifier (by simp)) fun r hr => .ret (congrArg some hr)

theorem moreParams_reads (names : List String) (name : String) (i : List Lexeme) :
    ∃ ls, paramLexemes (name :: names) = .name name :: ls ∧ ∀ᶠ k in atTop,
      Reads (moreParams k) (ls ++ .closeParen :: i) (.closeParen :: i) (·.map (·.1) = names) := by
  induction names generalizing name with
  | nil =>
    refine ⟨[], rfl, eventually_succ.mp <| .of_forall fun k => ?_⟩
    exact .lexeme (.ret rfl)
  | cons next names ih =>
    obtain ⟨ls, hls, hreads⟩ := ih next
    refine ⟨.comma :: .name next :: ls, ?_, eventually_succ.mp ?_⟩
    · rw [← hls]
      rfl
    · filter_upwards [hreads] with k hk
      refine .lexeme <| .pass (by simp) <| .bind (.identifier (by simp)) fun r hr => ?_
      refine hk.bind fun rs hrs => .ret ?_
      rw [List.map_cons, hr, hrs]

theorem params_reads (names : List String) {i : List Lexeme} (hi : i ≠ []) : ∀ᶠ k in atTop,
    Reads (params k) (paramLexemes names ++ .closeParen :: i) i (·.map (·.1) = names) := by
  cases names with
  | nil => exact .of_forall fun k => .lexeme <| .pass hi (.ret rfl)
  | cons name names =>
    obtain ⟨ls, hls, hreads⟩ := moreParams_reads names name i
    rw [hls]
    filter_upwards [hreads] with k hk
    refine .lexeme <| .bind (.identifier (by simp)) fun r hr => hk.bind fun rs hrs => ?_
    refine .lexeme <| .pass hi (.ret ?_)
    rw [List.map_cons, hr, hrs]

section

variable {name : Option String} {names : List String}

theorem shape_functionNode (name? : Option (String × Span)) (ps : List (String × Span)) (k : Bool) :
    (functionNode name? ps n k).shape =
      .function default (name?.map (·.1)) (ps.map (·.1)) n.shape k := rfl

theorem arrow_reads (hn : Fits .logic n a) :
    Fits .whole (.function s name names n true)
      (.keyword .funcKw :: (nameLexemes name ++ .openParen :: (paramLexemes names ++
        .closeParen :: .arrow :: a))) := by
  refine .of_closed_atom ⟨.atom, rfl, by decide⟩ fun l o hl =>
    eventually_succ.mp (eventually_succ.mp ?_)
  have hclose := Lexeme.delimits_of_stops (Lexeme.stops_of_closes hl)
  filter_upwards [hn.expression (o := o) (by decide) hclose,
    params_reads names (i := .arrow :: (a ++ l :: o)) (by simp)] with k hk hkp
  change Reads (atom (k + 2)) _ _ _
  rw [atom, function]
  simp only [List.append_assoc, List.cons_append]
  apply Reads.current
  intro t ht
  rw [ht]
  refine .part <| .bind (.keyword (by simp)) fun _ _ => ?_
  refine .bind (functionName_reads name _) fun name? hname => ?_
  apply Reads.bind (.openParams (by simp))
  intro _ _
  refine hkp.bind fun ps hps => .lexeme <| .pass (by simp) <| hk.part.bind fun r hr => .ret ?_
  rw [shape_functionNode, Node.shape, hname, hps, hr]

theorem function_reads (hn : BlockRead n a) :
    Fits .whole (.function s name names n false)
      (.keyword .funcKw :: (nameLexemes name ++ .openParen :: (paramLexemes names ++
        .closeParen :: (a ++ [.keyword .endKw])))) := by
  obtain ⟨t, rfl, hblock⟩ := hn
  refine .of_closed_atom ⟨.atom, rfl, by decide⟩ fun l o hl =>
    eventually_succ.mp (eventually_succ.mp ?_)
  filter_upwards [hblock (.keyword .endKw) (l :: o) rfl,
    params_reads names (i := .newline :: (t ++ .keyword .endKw :: l :: o)) (by simp)] with k hk hkp
  change Reads (atom (k + 2)) _ _ _
  rw [atom, function]
  simp only [List.append_assoc, List.cons_append, List.nil_append]
  apply Reads.current
  intro t ht
  rw [ht]
  refine .part <| .bind (.keyword (by simp)) fun _ _ => ?_
  refine .bind (functionName_reads name _) fun name? hname => ?_
  apply Reads.bind (.openParams (by simp))
  intro _ _
  refine hkp.bind fun ps hps => .lexeme <| .pass (by simp) <| hk.part.bind fun r hr => ?_
  refine .bind (.keyword (by simp)) fun _ _ => .ret ?_
  rw [shape_functionNode, Node.shape, hname, hps, hr]

end

theorem readBack_of_prints {form : Form} (h : Prints form ls) : ReadBack form ls := by
  induction h with
  | number v => exact number_reads v
  | text t => exact text_reads t
  | access name => exact access_reads name
  | list _ h => exact list_reads h
  | call _ _ hn hns => exact call_reads hn hns
  | unary _ h => exact unary_reads h
  | binary _ _ hx hy => exact binary_reads hx hy
  | assign _ h => exact assign_reads h
  | importFile written => exact import_reads written
  | branch _ h => exact branch_reads h
  | forLoop hv hname _ _ _ _ hx hy hz hn => exact forLoop_reads hv hname hx hy hz hn
  | whileLoop _ _ hx hn => exact whileLoop_reads hx hn
  | arrow _ h => exact arrow_reads h
  | function _ h => exact function_reads h
  | bare hp _ h => exact Fits.loosen h hp
  | @paren p _ _ _ h => exact (paren_reads h).loosen (by cases p <;> decide)
  | noItems => exact .inl ⟨rfl, rfl⟩
  | items _ _ hn hns => exact .inr ⟨_, _, _, _, rfl, rfl, hn, hns⟩
  | noMoreItems => exact noMoreItems_reads
  | moreItems _ _ hn hns => exact moreItems_reads hn hns
  | bareReturn => exact return_reads noOperand_reads
  | valueReturn _ h => exact return_reads (operand_reads h)
  | bareThink => exact think_reads noOperand_reads
  | valueThink _ h => exact think_reads (operand_reads h)
  | continueLoop => exact continue_reads
  | breakLoop => exact break_reads
  | statement _ h => exact statement_reads h
  | statements _ _ hn hns => exact statements_reads hn hns
  | noMoreStatements => exact noMoreStatements_reads
  | moreStatements k _ _ hn hns => exact moreStatements_reads k hn hns
  | block j k _ h => exact block_reads j k h
  | inlineCase _ _ _ hc hn hcs => exact inlineCase_reads hc hn hcs
  | blockCase _ _ hlast _ hc hn hcs => exact blockCase_reads hc hn hlast hcs
  | lastBlockCase _ _ hc hn => exact lastBlockCase_reads hc hn
  | noMoreCases => exact noMoreCases_reads
  | elifCases _ h => exact elifCases_reads h
  | inlineElse _ h => exact inlineElse_reads h
  | blockElse _ h => exact blockElse_reads h
  | noStep => exact noStep_reads
  | step _ h => exact step_reads h
  | inlineBody _ h => exact inlineBody_reads h
  | blockBody _ h => exact blockBody_reads h
  | program j k _ h => exact program_reads j k h

end Parse

variable {nodes : List Node} {ls : List Lexeme} {tokens : List Token}

theorem Parse.ofTokens_of_readBack (h : ReadBack (.program nodes) ls)
    (ht : tokens.map (·.lexeme) = ls ++ [.endOfText]) :
    ∃ node, Node.ofTokens tokens = .ok node ∧ node.shape = (Node.list default nodes).shape := by
  cases tokens with
  | nil => cases ls <;> cases ht
  | cons t rest =>
    let p := Progress.start ⟨t, rest⟩
    have hsealed : p.feed.Sealed := by
      have hlast := congrArg List.getLast? ht
      rw [List.getLast?_map, List.getLast?_concat] at hlast
      exact hlast
    obtain ⟨N, hN⟩ := eventually_atTop.mp h
    obtain ⟨node, q, hnode, _, hshape⟩ := hN (max N (Parse.fuelFor p.feed.tokens.length))
      (le_max_left ..) p ht
    have hagree := Parse.program_agrees hsealed (le_max_right N _)
    refine ⟨node, ?_, hshape⟩
    change (Parse.program (Parse.fuelFor p.feed.tokens.length) p).1 = .ok node
    rw [hagree.eq, hnode]

theorem Prints.ofTokens (h : Prints (.program nodes) ls)
    (ht : tokens.map (·.lexeme) = ls ++ [.endOfText]) :
    ∃ node, Node.ofTokens tokens = .ok node ∧ node.shape = (Node.list default nodes).shape :=
  Parse.ofTokens_of_readBack (Parse.readBack_of_prints h) ht

/-- The tree of a program can be printed, and however it is printed, it is read back up to places
in the text. -/
theorem Node.ofTokens_prints (nodes : List Node) (hnodes : Legal (.statements nodes)) :
    (∃ ls, Prints (.program nodes) ls) ∧
      ∀ ls, Prints (.program nodes) ls →
        ∀ tokens : List Token, tokens.map (·.lexeme) = ls ++ [.endOfText] →
          ∃ node, Node.ofTokens tokens = .ok node ∧
            node.shape = (Node.list default nodes).shape := by
  obtain ⟨⟨ls, hls⟩, _⟩ := hnodes.printable
  exact ⟨⟨_, .program 0 0 hls⟩, fun ls h tokens ht => h.ofTokens ht⟩

theorem Node.ofTokens_prints_power :
    ∃ node, Node.ofTokens [.single .newline default, .single .minus default,
        .single (.int 2) default, .single .power default, .single (.name "x") default,
        .single .endOfText default] = .ok node ∧
      node.shape = .list default [.unary default .minus
        (.binary default .pow (.number default (.int 2)) (.access default "x"))] := by
  refine (Node.ofTokens_prints [.unary default .minus
    (.binary default .pow (.number default (.int 2)) (.access default "x"))]
    (.oneStatement (.statement (.unary (.binary .number .access))))).2
    [.newline, .minus, .int 2, .power, .name "x"] ?_ _ rfl
  have hpower : Prints (.operand UnaryOp.minus.place
      (.binary default .pow (.number default (.int 2)) (.access default "x")))
      [.int 2, .power, .name "x"] :=
    .bare (by decide) (.binary (.bare (by decide) (.number (.int 2)))
      (.bare (by decide) (.access "x")))
  have hminus : Prints (.operand .whole (.unary default .minus
      (.binary default .pow (.number default (.int 2)) (.access default "x")))) _ :=
    .bare (by decide) (.unary hpower)
  exact .program 1 0 (.statements (.statement hminus) .noMoreStatements)

end Think
