import Mathlib.Data.List.Basic
import Think.Proofs.Parse.Grammar

/-! # Printing

How a tree is written as lexemes. Operands stand in places that bind tighter and tighter, and a
tree is put in brackets where its own place is looser than the one it stands in. Assignments,
imports, branches, loops and functions are looser than any operand, so they stand bare only as
whole statements.
-/

namespace Think

mutual

/-- The tree without its places in the text. -/
def Node.shape : Node → Node
  | .number _ v => .number default v
  | .text _ t => .text default t
  | .list _ ns => .list default (Node.shapes ns)
  | .access _ name => .access default name
  | .assign _ name v => .assign default name v.shape
  | .binary _ op l r => .binary default op l.shape r.shape
  | .unary _ op a => .unary default op a.shape
  | .branch _ cs f => .branch default (Node.caseShapes cs) (Node.bodyShape f)
  | .forLoop _ name x y z b k =>
    .forLoop default name x.shape y.shape (Node.optionShape z) b.shape k
  | .whileLoop _ c b k => .whileLoop default c.shape b.shape k
  | .function _ name params b k => .function default name params b.shape k
  | .call _ c args => .call default c.shape (Node.shapes args)
  | .ret _ v => .ret default (Node.optionShape v)
  | .think _ v => .think default (Node.optionShape v)
  | .importFile _ path => .importFile default path
  | .continueLoop _ => .continueLoop default
  | .breakLoop _ => .breakLoop default

def Node.shapes : List Node → List Node
  | [] => []
  | n :: ns => n.shape :: Node.shapes ns

def Node.optionShape : Option Node → Option Node
  | none => none
  | some n => some n.shape

def Node.bodyShape : Option (Node × Bool) → Option (Node × Bool)
  | none => none
  | some (n, k) => some (n.shape, k)

def Node.caseShapes : List (Node × Node × Bool) → List (Node × Node × Bool)
  | [] => []
  | (c, b, k) :: cs => (c.shape, b.shape, k) :: Node.caseShapes cs

end

/-- Where an expression stands, from the loosest place to the tightest. -/
inductive Place
  | whole | logic | negation | comparison | sum | product | sign | power | call | atom
  deriving DecidableEq

namespace Place

def rank : Place → Nat
  | whole => 0 | logic => 1 | negation => 2 | comparison => 3 | sum => 4 | product => 5
  | sign => 6 | power => 7 | call => 8 | atom => 9

instance : LE Place := ⟨fun a b => a.rank ≤ b.rank⟩

instance (a b : Place) : Decidable (a ≤ b) := inferInstanceAs (Decidable (a.rank ≤ b.rank))

end Place

namespace Level

def place : Level → Place
  | logic => .logic | comparison => .comparison | sum => .sum | product => .product
  | power => .power

def leftPlace : Level → Place
  | power => .call
  | level => level.place

def rightPlace : Level → Place
  | logic => .negation | comparison => .sum | sum => .product | product => .sign | power => .sign

end Level

def BinaryOp.level : BinaryOp → Level
  | and | or => .logic
  | eq | ne | lt | gt | le | ge => .comparison
  | add | sub => .sum
  | mul | div | mod | dot => .product
  | pow => .power

/-- The place of an operator and of what stands behind it. -/
def UnaryOp.place : UnaryOp → Place
  | not => .negation
  | plus | minus => .sign

/-- The tightest place where a tree stands without brackets. -/
def Node.place : Node → Place
  | .number .. | .text .. | .list .. | .access .. => .atom
  | .call .. => .call
  | .binary _ op _ _ => op.level.place
  | .unary _ op _ => op.place
  | _ => .whole

/-- What is written. -/
inductive Form
  /-- An expression without brackets around it. -/
  | bare (node : Node)
  | operand (place : Place) (node : Node)
  | items (nodes : List Node)
  | moreItems (nodes : List Node)
  /-- A statement. Its place is `whole` in a list of statements and tighter where it is the only
  statement of a body. -/
  | statement (place : Place) (node : Node)
  | statements (nodes : List Node)
  | moreStatements (nodes : List Node)
  | block (node : Node)
  | cases (lead : Keyword) (cases : Cases)
  | moreCases (cases : Cases)
  | step (node : Option Node)
  | loopBody (body : Node × Bool)
  | program (nodes : List Node)

open Form in
/-- The lexemes a form may be written with. Line breaks and brackets around operands may always be
more than are needed. -/
inductive Prints : Form → List Lexeme → Prop
  | number {s} (v : Numeral) : Prints (bare (.number s v)) [v.lexeme]
  | text {s} (t : String) : Prints (bare (.text s t)) [.text t]
  | access {s} (name : String) : Prints (bare (.access s name)) [.name name]
  | list {s ns a} : Prints (items ns) a →
      Prints (bare (.list s ns)) (.openSquare :: (a ++ [.closeSquare]))
  | call {s n ns a b} : Prints (operand .atom n) a → Prints (items ns) b →
      Prints (bare (.call s n ns)) (a ++ .openParen :: (b ++ [.closeParen]))
  | unary {s op n a} : Prints (operand op.place n) a →
      Prints (bare (.unary s op n)) (op.lexeme :: a)
  | binary {s op x y a b} : Prints (operand op.level.leftPlace x) a →
      Prints (operand op.level.rightPlace y) b →
      Prints (bare (.binary s op x y)) (a ++ op.lexeme :: b)
  | assign {s name n a} : Prints (operand .logic n) a →
      Prints (bare (.assign s name n)) (.keyword .varKw :: .name name :: .assign :: a)
  | importFile {s} (written : String) :
      Prints (bare (.importFile s (importPath written))) [.keyword .importKw, .text written]
  | branch {s cs f a} : Prints (cases .ifKw (cs, f)) a → Prints (bare (.branch s cs f)) a
  | forLoop {s name x y z n k v a b c d} : OptionalVar v → (v = [] → name ≠ "var") →
      Prints (operand .logic x) a → Prints (operand .logic y) b → Prints (step z) c →
      Prints (loopBody (n, k)) d →
      Prints (bare (.forLoop s name x y z n k))
        (.keyword .forKw ::
          (v ++ .name name :: .assign :: (a ++ .keyword .toKw :: (b ++ (c ++ d)))))
  | whileLoop {s x n k a b} : Prints (operand .logic x) a → Prints (loopBody (n, k)) b →
      Prints (bare (.whileLoop s x n k)) (.keyword .whileKw :: (a ++ b))
  | arrow {s name params n a} : Prints (operand .logic n) a →
      Prints (bare (.function s name params n true))
        (.keyword .funcKw :: (nameLexemes name ++ .openParen :: (paramLexemes params ++
          .closeParen :: .arrow :: a)))
  | function {s name params n a} : Prints (block n) a →
      Prints (bare (.function s name params n false))
        (.keyword .funcKw :: (nameLexemes name ++ .openParen :: (paramLexemes params ++
          .closeParen :: (a ++ [.keyword .endKw]))))
  | bare {p n a} : p ≤ n.place → Prints (bare n) a → Prints (operand p n) a
  | paren {p n a} : Prints (operand .whole n) a →
      Prints (operand p n) (.openParen :: (a ++ [.closeParen]))
  | noItems : Prints (items []) []
  | items {n ns a b} : Prints (operand .logic n) a → Prints (moreItems ns) b →
      Prints (items (n :: ns)) (a ++ b)
  | noMoreItems : Prints (moreItems []) []
  | moreItems {n ns a b} : Prints (operand .logic n) a → Prints (moreItems ns) b →
      Prints (moreItems (n :: ns)) (.comma :: (a ++ b))
  | bareReturn {p s} : Prints (statement p (.ret s none)) [.keyword .returnKw]
  | valueReturn {p s n a} : Prints (operand .logic n) a →
      Prints (statement p (.ret s (some n))) (.keyword .returnKw :: a)
  | bareThink {p s} : Prints (statement p (.think s none)) [.keyword .thinkKw]
  | valueThink {p s n a} : Prints (operand .logic n) a →
      Prints (statement p (.think s (some n))) (.keyword .thinkKw :: a)
  | continueLoop {p s} : Prints (statement p (.continueLoop s)) [.keyword .continueKw]
  | breakLoop {p s} : Prints (statement p (.breakLoop s)) [.keyword .breakKw]
  | statement {p n a} : Prints (operand p n) a → Prints (statement p n) a
  | statements {n ns a b} : Prints (statement .whole n) a → Prints (moreStatements ns) b →
      Prints (statements (n :: ns)) (a ++ b)
  | noMoreStatements : Prints (moreStatements []) []
  | moreStatements {n ns a b} (k : Nat) : Prints (statement .whole n) a →
      Prints (moreStatements ns) b →
      Prints (moreStatements (n :: ns)) (.replicate (k + 1) .newline ++ (a ++ b))
  | block {s ns a} (j k : Nat) : Prints (statements ns) a →
      Prints (block (.list s ns))
        (.replicate (j + 1) .newline ++ (a ++ .replicate (k + 1) .newline))
  | inlineCase {lead c n cs f a b d} : Prints (operand .logic c) a →
      Prints (statement .logic n) b → Prints (moreCases (cs, f)) d →
      Prints (cases lead ((c, n, false) :: cs, f))
        (.keyword lead :: (a ++ .keyword .thenKw :: (b ++ d)))
  | blockCase {lead c n cs f a b d} : Prints (operand .logic c) a → Prints (block n) b →
      (cs, f) ≠ ([], none) → Prints (moreCases (cs, f)) d →
      Prints (cases lead ((c, n, true) :: cs, f))
        (.keyword lead :: (a ++ .keyword .thenKw :: (b ++ d)))
  | lastBlockCase {lead c n a b} : Prints (operand .logic c) a → Prints (block n) b →
      Prints (cases lead ([(c, n, true)], none))
        (.keyword lead :: (a ++ .keyword .thenKw :: (b ++ [.keyword .endKw])))
  | noMoreCases : Prints (moreCases ([], none)) []
  | elifCases {c cs f a} : Prints (cases .elifKw (c :: cs, f)) a →
      Prints (moreCases (c :: cs, f)) a
  | inlineElse {n a} : Prints (statement .logic n) a →
      Prints (moreCases ([], some (n, false))) (.keyword .elseKw :: a)
  | blockElse {n a} : Prints (block n) a →
      Prints (moreCases ([], some (n, true))) (.keyword .elseKw :: (a ++ [.keyword .endKw]))
  | noStep : Prints (step none) []
  | step {n a} : Prints (operand .logic n) a → Prints (step (some n)) (.keyword .stepKw :: a)
  | inlineBody {n a} : Prints (statement .logic n) a →
      Prints (loopBody (n, false)) (.keyword .doKw :: a)
  | blockBody {n a} : Prints (block n) a →
      Prints (loopBody (n, true)) (.keyword .doKw :: (a ++ [.keyword .endKw]))
  | program {ns a} (j k : Nat) : Prints (statements ns) a →
      Prints (program ns) (.replicate j .newline ++ (a ++ .replicate k .newline))

/-- What part of a program a tree is to be. -/
inductive Role
  | expression (node : Node)
  | expressions (nodes : List Node)
  | option (node : Option Node)
  | statement (node : Node)
  | statements (nodes : List Node)
  /-- A body, marked when it is a block. -/
  | body (body : Node × Bool)
  | cases (cases : List (Node × Node × Bool))
  | fallback (body : Option (Node × Bool))

open Role in
/-- The trees of programs: where each kind of node may stand. -/
inductive Legal : Role → Prop
  | number {s v} : Legal (expression (.number s v))
  | text {s t} : Legal (expression (.text s t))
  | access {s name} : Legal (expression (.access s name))
  | list {s ns} : Legal (expressions ns) → Legal (expression (.list s ns))
  | call {s n ns} : Legal (expression n) → Legal (expressions ns) →
      Legal (expression (.call s n ns))
  | unary {s op n} : Legal (expression n) → Legal (expression (.unary s op n))
  | binary {s op x y} : Legal (expression x) → Legal (expression y) →
      Legal (expression (.binary s op x y))
  | assign {s name n} : Legal (expression n) → Legal (expression (.assign s name n))
  | importFile {s path} : ".think".toList <:+ path.toList → Legal (expression (.importFile s path))
  | branch {s c cs f} : Legal (cases (c :: cs)) → Legal (fallback f) →
      Legal (expression (.branch s (c :: cs) f))
  | forLoop {s name x y z n k} : Legal (expression x) → Legal (expression y) → Legal (option z) →
      Legal (body (n, k)) → Legal (expression (.forLoop s name x y z n k))
  | whileLoop {s x n k} : Legal (expression x) → Legal (body (n, k)) →
      Legal (expression (.whileLoop s x n k))
  | arrow {s name params n} : Legal (expression n) →
      Legal (expression (.function s name params n true))
  | function {s name params n} : Legal (body (n, true)) →
      Legal (expression (.function s name params n false))
  | noExpressions : Legal (expressions [])
  | expressions {n ns} : Legal (expression n) → Legal (expressions ns) →
      Legal (expressions (n :: ns))
  | noOption : Legal (option none)
  | option {n} : Legal (expression n) → Legal (option (some n))
  | ret {s n} : Legal (option n) → Legal (statement (.ret s n))
  | think {s n} : Legal (option n) → Legal (statement (.think s n))
  | continueLoop {s} : Legal (statement (.continueLoop s))
  | breakLoop {s} : Legal (statement (.breakLoop s))
  | statement {n} : Legal (expression n) → Legal (statement n)
  | oneStatement {n} : Legal (statement n) → Legal (statements [n])
  | statements {n ns} : Legal (statement n) → Legal (statements ns) → Legal (statements (n :: ns))
  | inlineBody {n} : Legal (statement n) → Legal (body (n, false))
  | blockBody {s ns} : Legal (statements ns) → Legal (body (.list s ns, true))
  | noCases : Legal (cases [])
  | cases {c n k cs} : Legal (expression c) → Legal (body (n, k)) → Legal (cases cs) →
      Legal (cases ((c, n, k) :: cs))
  | noFallback : Legal (fallback none)
  | fallback {n k} : Legal (body (n, k)) → Legal (fallback (some (n, k)))

theorem importPath_of_suffix {path : String} (h : ".think".toList <:+ path.toList) :
    importPath path = path := by
  have hlast : path.toList.getLast? = some 'k' := by
    obtain ⟨u, hu⟩ := h
    rw [← hu, List.getLast?_append_of_ne_nil _ (by decide)]
    decide
  simp only [importPath, hlast]
  exact if_pos (List.isSuffixOf_iff_suffix.mpr h)

/-- An expression that can be written can be written in any place, in brackets if need be. -/
theorem Prints.exists_operand {n : Node} (h : ∃ a, Prints (.bare n) a) (p : Place) :
    ∃ a, Prints (.operand p n) a := by
  obtain ⟨a, ha⟩ := h
  by_cases hp : p ≤ n.place
  · exact ⟨_, .bare hp ha⟩
  · exact ⟨_, .paren (.bare (Nat.zero_le _) ha)⟩

def Role.Printable : Role → Prop
  | expression n => ∃ a, Prints (.bare n) a
  | expressions ns => (∃ a, Prints (.items ns) a) ∧ ∃ a, Prints (.moreItems ns) a
  | option n => (∃ a, Prints (.step n) a) ∧ (∀ s p, ∃ a, Prints (.statement p (.ret s n)) a) ∧
      ∀ s p, ∃ a, Prints (.statement p (.think s n)) a
  | statement n => ∀ p, ∃ a, Prints (.statement p n) a
  | statements ns => (∃ a, Prints (.statements ns) a) ∧ ∃ a, Prints (.moreStatements ns) a
  | body (n, true) => ∃ a, Prints (.block n) a
  | body (n, false) => ∃ a, Prints (.statement .logic n) a
  | cases cs => ∀ f, (∃ a, Prints (.moreCases ([], f)) a) →
      (∃ a, Prints (.moreCases (cs, f)) a) ∧
        (cs ≠ [] → ∀ lead, ∃ a, Prints (.cases lead (cs, f)) a)
  | fallback f => ∃ a, Prints (.moreCases ([], f)) a

theorem Role.Printable.loopBody {n : Node} {k : Bool} (h : (Role.body (n, k)).Printable) :
    ∃ a, Prints (.loopBody (n, k)) a := by
  cases k with
  | true =>
    obtain ⟨a, ha⟩ := h
    exact ⟨_, .blockBody ha⟩
  | false =>
    obtain ⟨a, ha⟩ := h
    exact ⟨_, .inlineBody ha⟩

theorem Legal.printable {r : Role} (h : Legal r) : r.Printable := by
  induction h with
  | number => exact ⟨_, .number _⟩
  | text => exact ⟨_, .text _⟩
  | access => exact ⟨_, .access _⟩
  | list _ ih =>
    obtain ⟨⟨a, ha⟩, _⟩ := ih
    exact ⟨_, .list ha⟩
  | call _ _ ih ihs =>
    obtain ⟨a, ha⟩ := Prints.exists_operand ih .atom
    obtain ⟨⟨b, hb⟩, _⟩ := ihs
    exact ⟨_, .call ha hb⟩
  | @unary _ op _ _ ih =>
    obtain ⟨a, ha⟩ := Prints.exists_operand ih op.place
    exact ⟨_, .unary ha⟩
  | @binary _ op _ _ _ _ ihx ihy =>
    obtain ⟨a, ha⟩ := Prints.exists_operand ihx op.level.leftPlace
    obtain ⟨b, hb⟩ := Prints.exists_operand ihy op.level.rightPlace
    exact ⟨_, .binary ha hb⟩
  | assign _ ih =>
    obtain ⟨a, ha⟩ := Prints.exists_operand ih .logic
    exact ⟨_, .assign ha⟩
  | @importFile s path hp =>
    have h := Prints.importFile (s := s) path
    rw [importPath_of_suffix hp] at h
    exact ⟨_, h⟩
  | branch _ _ ihc ihf =>
    obtain ⟨a, ha⟩ := (ihc _ ihf).2 (by simp) .ifKw
    exact ⟨_, .branch ha⟩
  | @forLoop _ name _ _ _ _ _ _ _ _ _ ihx ihy ihz ihb =>
    obtain ⟨a, ha⟩ := Prints.exists_operand ihx .logic
    obtain ⟨b, hb⟩ := Prints.exists_operand ihy .logic
    obtain ⟨⟨c, hc⟩, _⟩ := ihz
    obtain ⟨d, hd⟩ := ihb.loopBody
    exact ⟨_, .forLoop (.present (l := .keyword .varKw) rfl) (by simp) ha hb hc hd⟩
  | whileLoop _ _ ihx ihb =>
    obtain ⟨a, ha⟩ := Prints.exists_operand ihx .logic
    obtain ⟨b, hb⟩ := ihb.loopBody
    exact ⟨_, .whileLoop ha hb⟩
  | arrow _ ih =>
    obtain ⟨a, ha⟩ := Prints.exists_operand ih .logic
    exact ⟨_, .arrow ha⟩
  | function _ ih =>
    obtain ⟨a, ha⟩ := ih
    exact ⟨_, .function ha⟩
  | noExpressions => exact ⟨⟨_, .noItems⟩, _, .noMoreItems⟩
  | expressions _ _ ih ihs =>
    obtain ⟨a, ha⟩ := Prints.exists_operand ih .logic
    obtain ⟨_, b, hb⟩ := ihs
    exact ⟨⟨_, .items ha hb⟩, _, .moreItems ha hb⟩
  | noOption => exact ⟨⟨_, .noStep⟩, fun _ _ => ⟨_, .bareReturn⟩, fun _ _ => ⟨_, .bareThink⟩⟩
  | option _ ih =>
    obtain ⟨a, ha⟩ := Prints.exists_operand ih .logic
    exact ⟨⟨_, .step ha⟩, fun _ _ => ⟨_, .valueReturn ha⟩, fun _ _ => ⟨_, .valueThink ha⟩⟩
  | ret _ ih => exact fun p => ih.2.1 _ p
  | think _ ih => exact fun p => ih.2.2 _ p
  | continueLoop => exact fun _ => ⟨_, .continueLoop⟩
  | breakLoop => exact fun _ => ⟨_, .breakLoop⟩
  | statement _ ih =>
    intro p
    obtain ⟨a, ha⟩ := Prints.exists_operand ih p
    exact ⟨_, .statement ha⟩
  | oneStatement _ ih =>
    obtain ⟨a, ha⟩ := ih .whole
    exact ⟨⟨_, .statements ha .noMoreStatements⟩, _, .moreStatements 0 ha .noMoreStatements⟩
  | statements _ _ ih ihs =>
    obtain ⟨a, ha⟩ := ih .whole
    obtain ⟨_, b, hb⟩ := ihs
    exact ⟨⟨_, .statements ha hb⟩, _, .moreStatements 0 ha hb⟩
  | inlineBody _ ih => exact ih .logic
  | blockBody _ ih =>
    obtain ⟨⟨a, ha⟩, _⟩ := ih
    exact ⟨_, .block 0 0 ha⟩
  | noCases => exact fun f hf => ⟨hf, fun h => (h rfl).elim⟩
  | @cases c n k cs _ _ _ ihc ihb ihcs =>
    intro f hf
    have hcases : ∀ lead, ∃ a, Prints (.cases lead ((c, n, k) :: cs, f)) a := by
      intro lead
      obtain ⟨a, ha⟩ := Prints.exists_operand ihc .logic
      obtain ⟨d, hd⟩ := (ihcs f hf).1
      cases k with
      | false =>
        obtain ⟨b, hb⟩ := ihb
        exact ⟨_, .inlineCase ha hb hd⟩
      | true =>
        obtain ⟨b, hb⟩ := ihb
        by_cases hlast : (cs, f) = ([], none)
        · cases hlast
          exact ⟨_, .lastBlockCase ha hb⟩
        · exact ⟨_, .blockCase ha hb hlast hd⟩
    obtain ⟨a, ha⟩ := hcases .elifKw
    exact ⟨⟨a, .elifCases ha⟩, fun _ => hcases⟩
  | noFallback => exact ⟨_, .noMoreCases⟩
  | @fallback n k _ ih =>
    cases k with
    | false =>
      obtain ⟨a, ha⟩ := ih
      exact ⟨_, .inlineElse ha⟩
    | true =>
      obtain ⟨a, ha⟩ := ih
      exact ⟨_, .blockElse ha⟩

end Think
