import Think.Proofs.Parse.Completeness
import Think.Proofs.Token.Scanning

/-! # Integer expressions

Expressions over natural literals with signs, negation, sums, products, comparisons and logic, what
they are worth, and the text they are written as. The text is read back as the expression's tree.
-/

namespace Think

/-- The binary operators under which integers stay integers. -/
inductive IntOp
  | add | sub | mul | eq | ne | lt | gt | le | ge | and | or
  deriving DecidableEq, Repr

namespace IntOp

def op : IntOp → BinaryOp
  | add => .add | sub => .sub | mul => .mul | eq => .eq | ne => .ne | lt => .lt | gt => .gt
  | le => .le | ge => .ge | and => .and | or => .or

def text : IntOp → String
  | add => "+" | sub => "-" | mul => "*" | eq => "==" | ne => "!=" | lt => "<" | gt => ">"
  | le => "<=" | ge => ">=" | and => "and" | or => "or"

def truth (p : Prop) [Decidable p] : Int := if p then 1 else 0

def value : IntOp → Int → Int → Int
  | add, a, b => a + b
  | sub, a, b => a - b
  | mul, a, b => a * b
  | eq, a, b => truth (a = b)
  | ne, a, b => truth (a ≠ b)
  | lt, a, b => truth (a < b)
  | gt, a, b => truth (b < a)
  | le, a, b => truth (a ≤ b)
  | ge, a, b => truth (b ≤ a)
  | and, a, b => if a ≠ 0 then b else 0
  | or, a, b => if a ≠ 0 then a else b

end IntOp

inductive IntExpr
  | lit (n : Nat)
  | unary (op : UnaryOp) (e : IntExpr)
  | binary (op : IntOp) (x y : IntExpr)
  deriving DecidableEq, Repr

namespace UnaryOp

/-- The operator in front of its operand. -/
def text : UnaryOp → String
  | plus => "+"
  | minus => "-"
  | not => "not "

def value : UnaryOp → Int → Int
  | plus, a => a
  | minus, a => -a
  | not, a => IntOp.truth (a = 0)

end UnaryOp

namespace IntExpr

def value : IntExpr → Int
  | lit n => n
  | unary op e => op.value e.value
  | binary op x y => op.value x.value y.value

def literals : IntExpr → List Nat
  | lit n => [n]
  | unary _ e => e.literals
  | binary _ x y => x.literals ++ y.literals

/-- The tightest place where the expression stands without brackets. -/
def place : IntExpr → Place
  | lit _ => .atom
  | unary op _ => op.place
  | binary op _ _ => op.op.level.place

/-- A text in brackets, unless its own place is tight enough. -/
def inPlace (p own : Place) (text : String) : String := if p ≤ own then text else "(" ++ text ++ ")"

/-- The expression with one blank around each binary operator and with the brackets it needs. -/
def text : IntExpr → String
  | lit n => toString n
  | unary op e => op.text ++ inPlace op.place e.place e.text
  | binary op x y =>
    inPlace op.op.level.leftPlace x.place x.text ++ " " ++ op.text ++ " " ++
      inPlace op.op.level.rightPlace y.place y.text

example : (binary .mul (binary .add (lit 1) (unary .minus (lit 2))) (lit 3)).text =
    "(1 + -2) * 3" := by
  decide +kernel

def node : IntExpr → Node
  | lit n => .number default (.int n)
  | unary op e => .unary default op e.node
  | binary op x y => .binary default op.op x.node y.node

theorem place_node (e : IntExpr) : e.node.place = e.place := by
  cases e <;> rfl

/-- Lexemes in brackets, unless their own place is tight enough. -/
def bracketed (p own : Place) (ls : List Lexeme) : List Lexeme :=
  if p ≤ own then ls else .openParen :: (ls ++ [.closeParen])

def lexemes : IntExpr → List Lexeme
  | lit n => [.int n]
  | unary op e => op.lexeme :: bracketed op.place e.place e.lexemes
  | binary op x y =>
    bracketed op.op.level.leftPlace x.place x.lexemes ++
      op.op.lexeme :: bracketed op.op.level.rightPlace y.place y.lexemes

theorem prints_bracketed {e : IntExpr} (h : Prints (.bare e.node) e.lexemes) (p : Place) :
    Prints (.operand p e.node) (bracketed p e.place e.lexemes) := by
  rw [bracketed]
  split
  · next hp => exact .bare (by rwa [place_node]) h
  · exact .paren (.bare (Nat.zero_le _) h)

theorem prints_lexemes (e : IntExpr) : Prints (.bare e.node) e.lexemes := by
  induction e with
  | lit n => exact .number (.int n)
  | unary op e ih => exact .unary (prints_bracketed ih _)
  | binary op x y ihx ihy => exact .binary (prints_bracketed ihx _) (prints_bracketed ihy _)

open Scanner Scanner.Scans

theorem endsNumber_cons {c : Char} {t : List Char} (hp : c ≠ '.') (hc : isDigit c = false) :
    EndsNumber (c :: t) := by
  rintro _ ⟨⟩
  exact ⟨hp, hc⟩

theorem scans_op (op : IntOp) :
    Scans (' ' :: (op.text.toList ++ [' '])) [op.op.lexeme] Opens := by
  have hspace : Scans [' '] [] Opens := space.mono fun _ _ => trivial
  have hshort {c : Char} {l : Lexeme} (h : Scans [c] [l] fun rest => rest.head? ≠ some '=') :
      Scans [' ', c, ' '] [l] Opens :=
    space.append (h.append hspace fun _ _ => by simp) fun _ _ => trivial
  have hlong {c d : Char} {l : Lexeme} (h : Scans [c, d] [l] fun _ => True) :
      Scans [' ', c, d, ' '] [l] Opens :=
    space.append (h.append hspace fun _ _ => trivial) fun _ _ => trivial
  have hword {cs : List Char} {l : Lexeme}
      (h : Scans cs [l] fun rest => ∃ t, rest = ' ' :: t ∧ Opens t) :
      Scans (' ' :: (cs ++ [' '])) [l] Opens :=
    space.append (h.append hspace fun rest hr => ⟨rest, rfl, hr⟩) fun _ _ => trivial
  cases op with
  | add => exact hshort ((punctuation rfl).mono fun _ _ => trivial)
  | sub => exact space.append (minus.append hspace fun _ _ => by simp) fun _ _ => trivial
  | mul => exact hshort ((punctuation rfl).mono fun _ _ => trivial)
  | eq => exact hlong equal
  | ne => exact hlong unequal
  | lt => exact hshort less
  | gt => exact hshort greater
  | le => exact hlong lessEqual
  | ge => exact hlong greaterEqual
  | and => exact hword (keyword (by decide) (by decide) (by decide))
  | or => exact hword (keyword (by decide) (by decide) (by decide))

theorem scans_unaryOp (op : UnaryOp) : Scans op.text.toList [op.lexeme] Opens := by
  cases op with
  | plus => exact (punctuation rfl).mono fun _ _ => trivial
  | minus =>
    refine minus.mono ?_
    rintro _ ⟨c, t, rfl, _, _, hc, _⟩
    simpa using hc
  | not =>
    have hword :
        Scans ['n', 'o', 't'] [.keyword .notKw] fun rest => ∃ t, rest = ' ' :: t ∧ Opens t :=
      keyword (by decide) (by decide) (by decide)
    have hspace : Scans [' '] [] Opens := space.mono fun _ _ => trivial
    exact hword.append hspace fun rest hr => ⟨rest, rfl, hr⟩

theorem opens_inPlace (p own : Place) {text : String} (h : ∀ rest, Opens (text.toList ++ rest))
    (rest : List Char) : Opens ((inPlace p own text).toList ++ rest) := by
  rw [inPlace]
  split
  · exact h rest
  · exact ⟨'(', text.toList ++ ')' :: rest, by simp, by decide, by decide, by decide,
      fun h => absurd h (by decide)⟩

theorem opens_text (e : IntExpr) (rest : List Char) : Opens (e.text.toList ++ rest) := by
  induction e generalizing rest with
  | lit n =>
    rw [text, Nat.toString_eq_ofList_toDigits, String.toList_ofList]
    cases hds : Nat.toDigits 10 n with
    | nil => exact (Nat.toDigits_ne_nil hds).elim
    | cons c cs =>
      have hc : c.isDigit := Nat.isDigit_of_mem_toDigits (by decide) (by decide)
        (hds ▸ List.mem_cons_self : c ∈ Nat.toDigits 10 n)
      refine ⟨c, cs ++ rest, rfl, ?_, ?_, ?_, ?_⟩ <;> rintro rfl <;> cases hc
  | unary op e ih =>
    obtain ⟨c, t, hct, _, hequals, _⟩ := opens_inPlace op.place e.place ih rest
    rw [text, String.toList_append, List.append_assoc, hct]
    cases op with
    | plus =>
      exact ⟨'+', c :: t, rfl, by decide, by decide, by decide, fun _ => by simpa using hequals⟩
    | minus =>
      exact ⟨'-', c :: t, rfl, by decide, by decide, by decide, fun h => absurd h (by decide)⟩
    | not => exact ⟨'n', _, rfl, by decide, by decide, by decide, fun h => absurd h (by decide)⟩
  | binary op x y ihx _ =>
    rw [text]
    simp only [String.toList_append, List.append_assoc]
    exact opens_inPlace _ _ ihx _

theorem scans_inPlace (p own : Place) {text : String} {ls : List Lexeme}
    (h : Scans text.toList ls EndsNumber) :
    Scans (inPlace p own text).toList (bracketed p own ls) EndsNumber := by
  rw [inPlace, bracketed]
  split
  · exact h
  · have hclose : Scans [')'] [.closeParen] EndsNumber := (punctuation rfl).mono fun _ _ => trivial
    have hinner := h.append hclose fun rest _ => endsNumber_cons (by decide) (by decide)
    have hwhole := (punctuation (c := '(') rfl).append hinner fun _ _ => trivial
    simpa using hwhole

theorem scans_text {e : IntExpr} (h : ∀ n ∈ e.literals, (toString n).length ≤ maxDigits) :
    Scans e.text.toList e.lexemes EndsNumber := by
  induction e with
  | lit n => exact digits (h n (by simp [literals]))
  | unary op e ih =>
    rw [text, lexemes, String.toList_append]
    exact (scans_unaryOp op).append (scans_inPlace _ _ (ih h)) fun rest _ =>
      opens_inPlace _ _ (opens_text e) rest
  | binary op x y ihx ihy =>
    have hx := scans_inPlace op.op.level.leftPlace x.place
      (ihx fun n hn => h n (by simp [literals, hn]))
    have hy := scans_inPlace op.op.level.rightPlace y.place
      (ihy fun n hn => h n (by simp [literals, hn]))
    have hright := (scans_op op).append hy fun rest _ => opens_inPlace _ _ (opens_text y) rest
    have hwhole := hx.append hright fun rest _ => endsNumber_cons (by decide) (by decide)
    simpa [text, lexemes] using hwhole

/-- The text of an expression is read as its tree, up to places in the text. -/
theorem tree_of_text {e : IntExpr} (source : Source) (hs : source.text = e.text)
    (h : ∀ n ∈ e.literals, (toString n).length ≤ maxDigits) :
    ∃ tokens tree, source.tokens = .ok tokens ∧ Node.ofTokens tokens = .ok tree ∧
      tree.shape = (Node.list default [e.node]).shape := by
  obtain ⟨tokens, htokens, hlex⟩ :=
    (scans_text h).tokens (by rintro _ ⟨⟩) (congrArg String.toList hs)
  have hprint : Prints (.program [e.node]) e.lexemes := by
    have hbare : Prints (.operand .whole e.node) e.lexemes := .bare (Nat.zero_le _) e.prints_lexemes
    simpa using Prints.program 0 0 (.statements (.statement hbare) .noMoreStatements)
  obtain ⟨tree, htree, hshape⟩ := hprint.ofTokens hlex
  exact ⟨tokens, tree, htokens, htree, hshape⟩

end IntExpr

end Think
