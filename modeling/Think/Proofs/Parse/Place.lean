import Think.Proofs.Parse.Printing
import Think.Proofs.Parse.Reads

/-! # Reading an expression in its place

Each place of an expression has its production. What the production of a place reads, in front of
a lexeme that cannot go on the expression, the productions of all looser places read as well.
-/

namespace Think

open Filter

namespace Lexeme

/-- The tightest place where an expression may start with the lexeme. -/
def startPlace? : Lexeme → Option Place
  | keyword .varKw | keyword .importKw => some .whole
  | keyword .notKw => some .negation
  | plus | minus => some .sign
  | int _ | float _ | text _ | name _ | openParen | openSquare => some .atom
  | keyword .ifKw | keyword .forKw | keyword .whileKw | keyword .funcKw => some .atom
  | _ => none

def Starts (l : Lexeme) (p : Place) : Prop := ∃ q, l.startPlace? = some q ∧ p ≤ q

/-- What may stand behind a whole expression. -/
def closes : Lexeme → Bool
  | newline | endOfText | closeParen => true
  | _ => false

/-- What may stand behind the only statement of a body. -/
def stops : Lexeme → Bool
  | keyword .elifKw | keyword .elseKw => true
  | l => l.closes

def delimits : Lexeme → Bool
  | closeSquare | comma | keyword .thenKw | keyword .toKw | keyword .stepKw | keyword .doKw => true
  | l => l.stops

def endsBlock : Lexeme → Bool
  | endOfText | keyword .endKw | keyword .elifKw | keyword .elseKw => true
  | _ => false

theorem stops_of_closes {l : Lexeme} (h : l.closes) : l.stops := by
  cases l <;> first | exact h | cases h

theorem delimits_of_stops {l : Lexeme} (h : l.stops) : l.delimits := by
  unfold delimits
  split <;> first | rfl | exact h

end Lexeme

namespace Place

def tighter : Place → Place
  | whole => logic | logic => negation | negation => comparison | comparison => sum
  | sum => product | product => sign | sign => power | power => call | call => atom | atom => atom

theorem rank_injective {p q : Place} (h : p.rank = q.rank) : p = q := by
  cases p <;> cases q <;> first | rfl | cases h

theorem le_tighter (p : Place) : p ≤ p.tighter := by
  cases p <;> decide

/-- What goes from the tighter place to a place goes from any place to all looser ones. -/
theorem of_tighter {P : Place → Prop} (h : ∀ p, P p.tighter → P p) {p q : Place} (hle : p ≤ q)
    (hq : P q) : P p := by
  obtain ⟨d, hd⟩ := Nat.exists_eq_add_of_le (show p.rank ≤ q.rank from hle)
  clear hle
  induction d generalizing p with
  | zero => exact rank_injective hd ▸ hq
  | succ d ih =>
    refine h p (ih ?_)
    cases p <;> cases q <;> simp only [rank, tighter] at hd ⊢ <;> omega

def production : Place → Nat → Parse Node
  | whole, n => Parse.expression n
  | logic, n => Parse.chain n .logic
  | negation, n => Parse.negation n
  | comparison, n => Parse.chain n .comparison
  | sum, n => Parse.chain n .sum
  | product, n => Parse.chain n .product
  | sign, n => Parse.factor n
  | power, n => Parse.chain n .power
  | call, n => Parse.call n
  | atom, n => Parse.atom n

end Place

theorem Lexeme.Starts.loosen {l : Lexeme} {p q : Place} (h : l.Starts q) (hle : p ≤ q) :
    l.Starts p := by
  obtain ⟨r, hr, hq⟩ := h
  exact ⟨r, hr, Nat.le_trans hle hq⟩

/-- The lexeme ends an expression in the place: it cannot go on there. -/
structure Ends (p : Place) (l : Lexeme) : Prop where
  noCall : p ≤ .call → l ≠ .openParen
  noOperator : ∀ level : Level, p ≤ level.place → level.op? l = none
  closes : p = .whole → l.closes

namespace Ends

variable {p q : Place} {l : Lexeme}

theorem tighten (h : Ends p l) (hle : p ≤ q) : Ends q l where
  noCall hq := h.noCall (Nat.le_trans hle hq)
  noOperator level hq := h.noOperator level (Nat.le_trans hle hq)
  closes hq := by
    subst hq
    exact h.closes (Place.rank_injective (Nat.le_zero.mp hle))

theorem right {level : Level} (h : Ends level.place l) : Ends level.rightPlace l where
  noCall _ := h.noCall (by cases level <;> decide)
  noOperator other ho := h.noOperator other <| by
    cases level <;> cases other <;> first | decide | exact absurd ho (by decide)
  closes hw := by cases level <;> cases hw

theorem of_delimits (h : l.delimits) (hp : p = .whole → l.closes) : Ends p l where
  noCall _ := by
    rintro rfl
    cases h
  noOperator level _ := by
    cases level <;> unfold Level.op? <;> split <;> first | rfl | cases h
  closes := hp

end Ends

namespace Parse

variable {p q : Place} {n : Node} {ls i o : List Lexeme} {c l : Lexeme} {level : Level}
  {P : Node → Prop}

theorem operand_succ (k : Nat) (level : Level) :
    operand (k + 1) level = level.place.tighter.production k := by
  cases level <;> rw [operand] <;> rfl

theorem eventually_rightOperand (level : Level) {Q : Parse Node → Prop}
    (h : ∀ᶠ k in atTop, Q (level.rightPlace.production k)) :
    ∀ᶠ k in atTop, Q (rightOperand k level) := by
  cases level
  case power => exact h
  all_goals
    apply eventually_succ.mp
    filter_upwards [h] with k hk
    exact hk

theorem atom_fails (hl : l.startPlace? = none) (k : Nat) : Fails (atom (k + 1)) l := by
  rw [atom]
  apply Fails.current
  intro t ht
  rw [ht]
  split <;> first | exact .reject | cases hl

theorem place_fails (hl : l.startPlace? = none) (p : Place) :
    ∀ᶠ k in atTop, Fails (p.production k) l := by
  have hatom : ∀ᶠ k in atTop, Fails (Place.atom.production k) l :=
    eventually_succ.mp (.of_forall (atom_fails hl))
  refine Place.of_tighter (P := fun p => ∀ᶠ k in atTop, Fails (p.production k) l)
    (fun p hp => ?_) (q := .atom) (by cases p <;> decide) hatom
  have hchain (level : Level) (h : ∀ᶠ k in atTop, Fails (level.place.tighter.production k) l) :
      ∀ᶠ k in atTop, Fails (chain k level) l := by
    refine eventually_succ.mp (eventually_succ.mp ?_)
    filter_upwards [h] with k hk
    rw [chain, operand_succ]
    exact hk.part.bind
  cases p with
  | whole =>
    apply eventually_succ.mp
    filter_upwards [hp] with k hk
    change Fails (expression (k + 1)) l
    rw [expression]
    apply Fails.lexeme
    split
    · cases hl
    · cases hl
    · exact hk.partOr
  | logic => exact hchain .logic hp
  | negation =>
    apply eventually_succ.mp
    filter_upwards [hp] with k hk
    change Fails (negation (k + 1)) l
    rw [negation]
    apply Fails.current
    intro t ht
    rw [ht]
    split
    · cases hl
    · exact hk.partOr
  | comparison => exact hchain .comparison hp
  | sum => exact hchain .sum hp
  | product => exact hchain .product hp
  | sign =>
    apply eventually_succ.mp
    filter_upwards [hp] with k hk
    change Fails (factor (k + 1)) l
    rw [factor]
    apply Fails.current
    intro t ht
    rw [ht]
    split
    · cases hl
    · cases hl
    · exact hk
  | power => exact hchain .power hp
  | call =>
    apply eventually_succ.mp
    filter_upwards [hp] with k hk
    change Fails (call (k + 1)) l
    rw [call]
    exact hk.part.bind
  | atom => exact hp

def ReadsAt (p : Place) (n : Node) (ls : List Lexeme) (l : Lexeme) (o : List Lexeme) : Prop :=
  ∀ᶠ k in atTop, Reads (p.production k) (ls ++ l :: o) (l :: o) (·.shape = n.shape)

/-- A chain is read from its first operand on: operators go on from whatever tree was read. -/
theorem chain_reads (h : ReadsAt level.place.tighter n ls l i)
    (hk : ∀ᶠ k in atTop, ∀ a : Node, a.shape = n.shape →
      Reads (moreOperands k level a) (l :: i) o P) :
    ∀ᶠ k in atTop, Reads (chain k level) (ls ++ l :: i) o P := by
  refine eventually_succ.mp (eventually_succ.mp ?_)
  filter_upwards [h, eventually_succ.mpr hk] with k hread hmore
  rw [chain, operand_succ]
  exact hread.part.bind hmore

theorem moreOperands_reads (hl : level.op? l = none) (k : Nat) {a : Node} (ha : P a) :
    Reads (moreOperands (k + 1) level a) (l :: o) (l :: o) P := by
  rw [moreOperands_succ]
  apply Reads.lexeme
  rw [hl]
  exact .ret ha

theorem expression_reads (h : ReadsAt .logic n (c :: ls) l o) (hc : c.Starts .logic) :
    ReadsAt .whole n (c :: ls) l o := by
  apply eventually_succ.mp
  filter_upwards [h] with k hk
  change Reads (expression (k + 1)) _ _ _
  rw [expression]
  obtain ⟨q, hq, hle⟩ := hc
  apply Reads.lexeme
  split
  · cases hq
    cases hle
  · cases hq
    cases hle
  · exact hk.partOr

theorem ReadsAt.loosen (h : ReadsAt p.tighter n (c :: ls) l o) (hc : c.Starts p.tighter)
    (hl : Ends p l) : ReadsAt p n (c :: ls) l o := by
  have hchain (level : Level) (h : ReadsAt level.place.tighter n (c :: ls) l o)
      (hl : Ends level.place l) : ∀ᶠ k in atTop,
        Reads (chain k level) (c :: ls ++ l :: o) (l :: o) (·.shape = n.shape) :=
    chain_reads h <| eventually_succ.mp <| .of_forall fun k a ha =>
      moreOperands_reads (hl.noOperator level (Nat.le_refl _)) k ha
  obtain ⟨q, hq, hle⟩ := hc
  cases p with
  | whole => exact expression_reads h ⟨q, hq, hle⟩
  | logic => exact hchain .logic h hl
  | negation =>
    apply eventually_succ.mp
    filter_upwards [h] with k hk
    change Reads (negation (k + 1)) _ _ _
    rw [negation]
    apply Reads.current
    intro t ht
    rw [ht]
    split
    · cases hq
      exact absurd hle (by decide)
    · exact hk.partOr
  | comparison => exact hchain .comparison h hl
  | sum => exact hchain .sum h hl
  | product => exact hchain .product h hl
  | sign =>
    apply eventually_succ.mp
    filter_upwards [h] with k hk
    change Reads (factor (k + 1)) _ _ _
    rw [factor]
    apply Reads.current
    intro t ht
    rw [ht]
    split
    · cases hq
      exact absurd hle (by decide)
    · cases hq
      exact absurd hle (by decide)
    · exact hk
  | power => exact hchain .power h hl
  | call =>
    apply eventually_succ.mp
    filter_upwards [h] with k hk
    change Reads (call (k + 1)) _ _ _
    rw [call]
    refine hk.part.bind fun a ha => .lexeme ?_
    split
    · exact (hl.noCall (by decide) rfl).elim
    · exact .ret ha
  | atom => exact h

/-- A chain of the level is read from the tree on: if its operators go on from any such tree with
what stands behind, then the chain reads all of it. -/
def Extends (level : Level) (n : Node) (ls : List Lexeme) : Prop :=
  ∀ l i o (P : Node → Prop), Ends level.rightPlace l →
    (∀ᶠ k in atTop, ∀ a : Node, a.shape = n.shape → Reads (moreOperands k level a) (l :: i) o P) →
    ∀ᶠ k in atTop, Reads (chain k level) (ls ++ l :: i) o P

structure Fits (p : Place) (n : Node) (ls : List Lexeme) : Prop where
  starts : ∃ c t, ls = c :: t ∧ c.Starts p
  reads : ∀ l o, Ends p l → ReadsAt p n ls l o
  goesOn : ∀ level : Level, level.place = p → Extends level n ls

namespace Fits

theorem loosen_tighter (h : Fits p.tighter n ls) : Fits p n ls := by
  obtain ⟨⟨c, t, rfl, hc⟩, hreads, _⟩ := h
  refine ⟨⟨c, t, rfl, hc.loosen p.le_tighter⟩, fun l o hl => ?_, fun level hlevel => ?_⟩
  · exact (hreads l o (hl.tighten p.le_tighter)).loosen hc hl
  · subst hlevel
    intro l i o P hl hk
    have hle : level.rightPlace ≤ level.place.tighter := by cases level <;> decide
    exact chain_reads (hreads l i (hl.tighten hle)) hk

theorem loosen (h : Fits q n ls) (hle : p ≤ q) : Fits p n ls :=
  Place.of_tighter (P := fun p => Fits p n ls) (fun _ => loosen_tighter) hle h

/-- Trees that stand bare only as whole statements are read as atoms in front of what closes one. -/
theorem of_closed_atom (hc : c.Starts .atom)
    (h : ∀ l o, l.closes → ReadsAt .atom n (c :: ls) l o) : Fits .whole n (c :: ls) := by
  refine ⟨⟨c, ls, rfl, hc.loosen (by decide)⟩, fun l o hl => ?_, fun level hlevel => ?_⟩
  · have hcloses := hl.closes rfl
    refine Place.of_tighter (P := fun p => ReadsAt p n (c :: ls) l o) (fun p hp => ?_)
      (q := .atom) (by decide) (h l o hcloses)
    have hdelimits := Lexeme.delimits_of_stops (Lexeme.stops_of_closes hcloses)
    exact hp.loosen (hc.loosen (by cases p <;> decide)) (.of_delimits hdelimits fun _ => hcloses)
  · cases level <;> cases hlevel

theorem of_atom (hc : c.Starts .atom) (h : ∀ l o, ReadsAt .atom n (c :: ls) l o) :
    Fits .atom n (c :: ls) :=
  ⟨⟨c, ls, rfl, hc⟩, fun l o _ => h l o, fun level hlevel => by cases level <;> cases hlevel⟩

theorem whole (h : Fits .whole n ls) (hl : l.closes) : ∀ᶠ k in atTop,
    Reads (Parse.expression k) (ls ++ l :: o) (l :: o) (·.shape = n.shape) :=
  h.reads l o (.of_delimits (Lexeme.delimits_of_stops (Lexeme.stops_of_closes hl)) fun _ => hl)

/-- An expression that is part of another form is read up to what divides the form. -/
theorem expression (h : Fits p n ls) (hp : .logic ≤ p) (hl : l.delimits) : ∀ᶠ k in atTop,
    Reads (Parse.expression k) (ls ++ l :: o) (l :: o) (·.shape = n.shape) := by
  obtain ⟨⟨c, t, rfl, hc⟩, hreads, _⟩ := h.loosen hp
  exact expression_reads (hreads l o (.of_delimits hl (by simp))) hc

end Fits

end Parse

end Think
