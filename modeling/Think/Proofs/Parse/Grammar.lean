import Think.Node.Parser

/-! # The grammar

A phrase is a form of the language together with what it stands for, and `Derives` tells which
lexemes make up a phrase. Places in the text play no part: a node is derived with any span.
-/

namespace Think

/-- What a part of a program is read as. -/
inductive Phrase
  | statements (nodes : List Node)
  /-- What may follow a statement: more of them, each behind line breaks. -/
  | moreStatements (nodes : List Node)
  | statement (node : Node)
  | expression (node : Node)
  | negation (node : Node)
  /-- Operands of a level joined by its operators. -/
  | chain (level : Level) (node : Node)
  | factor (node : Node)
  | call (node : Node)
  | atom (node : Node)
  /-- Expressions divided by commas, or none. -/
  | items (nodes : List Node)
  | moreItems (nodes : List Node)
  | cases (lead : Keyword) (cases : Cases)
  | moreCases (cases : Cases)
  | fallback (body : Option (Node × Bool))
  | step (node : Option Node)
  | loopBody (body : Node × Bool)

namespace Phrase

def operand : Level → Node → Phrase
  | .logic => negation
  | .comparison => chain .sum
  | .sum => chain .product
  | .product => factor
  | .power => call

/-- An operand of a level that stands behind an operator. An exponent may carry a sign. -/
def rightOperand : Level → Node → Phrase
  | .power => factor
  | level => operand level

end Phrase

/-- The names of parameters, divided by commas. -/
def paramLexemes (names : List String) : List Lexeme := (names.map .name).intersperse .comma

def nameLexemes (name : Option String) : List Lexeme := (name.map .name).toList

/-- The word `var`, or nothing. -/
inductive OptionalVar : List Lexeme → Prop
  | absent : OptionalVar []
  | present {l : Lexeme} : l.isVarText → OptionalVar [l]

open Phrase in
/-- The lexemes that make up a phrase. -/
inductive Derives : Phrase → List Lexeme → Prop
  | statements {n ns a b} (k : Nat) : Derives (statement n) a → Derives (moreStatements ns) b →
      Derives (statements (n :: ns)) (.replicate k .newline ++ a ++ b)
  | noMoreStatements (k : Nat) : Derives (moreStatements []) (.replicate k .newline)
  | moreStatements {n ns a b} (k : Nat) : Derives (statement n) a → Derives (moreStatements ns) b →
      Derives (moreStatements (n :: ns)) (.replicate (k + 1) .newline ++ a ++ b)
  | bareReturn {s} : Derives (statement (.ret s none)) [.keyword .returnKw]
  | valueReturn {s e a} : Derives (expression e) a →
      Derives (statement (.ret s (some e))) (.keyword .returnKw :: a)
  | bareThink {s} : Derives (statement (.think s none)) [.keyword .thinkKw]
  | valueThink {s e a} : Derives (expression e) a →
      Derives (statement (.think s (some e))) (.keyword .thinkKw :: a)
  | continueLoop {s} : Derives (statement (.continueLoop s)) [.keyword .continueKw]
  | breakLoop {s} : Derives (statement (.breakLoop s)) [.keyword .breakKw]
  | statement {e a} : Derives (expression e) a → Derives (statement e) a
  | assign {s name e a} : Derives (expression e) a →
      Derives (expression (.assign s name e)) (.keyword .varKw :: .name name :: .assign :: a)
  | importFile {s} (written : String) :
      Derives (expression (.importFile s (importPath written))) [.keyword .importKw, .text written]
  | expression {e a} : Derives (chain .logic e) a → Derives (expression e) a
  | not {s e a} : Derives (negation e) a →
      Derives (negation (.unary s .not e)) (.keyword .notKw :: a)
  | negation {e a} : Derives (chain .comparison e) a → Derives (negation e) a
  | operand {l e a} : Derives (operand l e) a → Derives (chain l e) a
  | join {l o op s x y a b} : Derives (chain l x) a → l.op? o = some op →
      Derives (rightOperand l y) b → Derives (chain l (.binary s op x y)) (a ++ o :: b)
  | plus {s e a} : Derives (factor e) a → Derives (factor (.unary s .plus e)) (.plus :: a)
  | minus {s e a} : Derives (factor e) a → Derives (factor (.unary s .minus e)) (.minus :: a)
  | factor {e a} : Derives (chain .power e) a → Derives (factor e) a
  | call {s e es a b} : Derives (atom e) a → Derives (items es) b →
      Derives (call (.call s e es)) (a ++ .openParen :: b ++ [.closeParen])
  | noCall {e a} : Derives (atom e) a → Derives (call e) a
  | number {s} (v : Numeral) : Derives (atom (.number s v)) [v.lexeme]
  | text {s} (t : String) : Derives (atom (.text s t)) [.text t]
  | access {s} (name : String) : Derives (atom (.access s name)) [.name name]
  | paren {e a} : Derives (expression e) a → Derives (atom e) (.openParen :: a ++ [.closeParen])
  | list {s es a} : Derives (items es) a →
      Derives (atom (.list s es)) (.openSquare :: a ++ [.closeSquare])
  | branch {s cs f a} : Derives (cases .ifKw (cs, f)) a → Derives (atom (.branch s cs f)) a
  | forLoop {s name x y z n k v a b c d} : OptionalVar v → Derives (expression x) a →
      Derives (expression y) b → Derives (step z) c → Derives (loopBody (n, k)) d →
      Derives (atom (.forLoop s name x y z n k))
        (.keyword .forKw :: v ++ .name name :: .assign :: a ++ .keyword .toKw :: b ++ c ++ d)
  | whileLoop {s e n k a b} : Derives (expression e) a → Derives (loopBody (n, k)) b →
      Derives (atom (.whileLoop s e n k)) (.keyword .whileKw :: a ++ b)
  | arrow {s name params e a} : Derives (expression e) a →
      Derives (atom (.function s name params e true))
        (.keyword .funcKw :: nameLexemes name ++ .openParen :: paramLexemes params ++
          .closeParen :: .arrow :: a)
  | function {s s' name params ns a} : Derives (statements ns) a →
      Derives (atom (.function s name params (.list s' ns) false))
        (.keyword .funcKw :: nameLexemes name ++ .openParen :: paramLexemes params ++
          .closeParen :: .newline :: a ++ [.keyword .endKw])
  | noItems : Derives (items []) []
  | items {e es a b} : Derives (expression e) a → Derives (moreItems es) b →
      Derives (items (e :: es)) (a ++ b)
  | noMoreItems : Derives (moreItems []) []
  | moreItems {e es a b} : Derives (expression e) a → Derives (moreItems es) b →
      Derives (moreItems (e :: es)) (.comma :: a ++ b)
  | blockCase {lead s c ns a b} : Derives (expression c) a → Derives (statements ns) b →
      Derives (cases lead ([(c, .list s ns, true)], none))
        (.keyword lead :: a ++ .keyword .thenKw :: .newline :: b ++ [.keyword .endKw])
  | blockCases {lead s c ns cs f a b d} : Derives (expression c) a → Derives (statements ns) b →
      Derives (moreCases (cs, f)) d →
      Derives (cases lead ((c, .list s ns, true) :: cs, f))
        (.keyword lead :: a ++ .keyword .thenKw :: .newline :: b ++ d)
  | inlineCases {lead c n cs f a b d} : Derives (expression c) a → Derives (statement n) b →
      Derives (moreCases (cs, f)) d →
      Derives (cases lead ((c, n, false) :: cs, f))
        (.keyword lead :: a ++ .keyword .thenKw :: b ++ d)
  | elifCases {cs a} : Derives (cases .elifKw cs) a → Derives (moreCases cs) a
  | lastCase {f a} : Derives (fallback f) a → Derives (moreCases ([], f)) a
  | noFallback : Derives (fallback none) []
  | blockFallback {s ns a} : Derives (statements ns) a →
      Derives (fallback (some (.list s ns, true)))
        (.keyword .elseKw :: .newline :: a ++ [.keyword .endKw])
  | inlineFallback {n a} : Derives (statement n) a →
      Derives (fallback (some (n, false))) (.keyword .elseKw :: a)
  | noStep : Derives (step none) []
  | step {e a} : Derives (expression e) a → Derives (step (some e)) (.keyword .stepKw :: a)
  | blockBody {s ns a} : Derives (statements ns) a →
      Derives (loopBody (.list s ns, true))
        (.keyword .doKw :: .newline :: a ++ [.keyword .endKw])
  | inlineBody {n a} : Derives (statement n) a →
      Derives (loopBody (n, false)) (.keyword .doKw :: a)

end Think
