import Jsni.Java.Lexeme

/-!
# Trees of Java sources

Only what bears on blocks has a role of its own: type declarations, declarations of methods and
constructors with their modifiers, packages and imports. All else is a branch without a role. A
comment is a leaf of the smallest branch around it.
-/

namespace Jsni.Java

inductive Role where
  | typeDeclaration (name : String)
  /-- A method or a constructor. -/
  | methodDeclaration (name : String)
  | modifiers
  | packageDeclaration
  | importDeclaration
  | other
deriving DecidableEq, Repr, Inhabited

inductive Node where
  | leaf (l : Lexeme)
  | branch (role : Role) (children : List Node)
deriving Repr, Inhabited

mutual

def Node.decEq : (n m : Node) → Decidable (n = m)
  | .leaf l, .leaf k           => decidable_of_iff (l = k) (by rw [Node.leaf.injEq])
  | .branch r ns, .branch s ms =>
    have := nodesDecEq ns ms
    decidable_of_iff (r = s ∧ ns = ms) (by rw [Node.branch.injEq])
  | .leaf _, .branch _ _       => .isFalse nofun
  | .branch _ _, .leaf _       => .isFalse nofun

def nodesDecEq : (ns ms : List Node) → Decidable (ns = ms)
  | [], []           => .isTrue rfl
  | n :: ns, m :: ms =>
    have := n.decEq m
    have := nodesDecEq ns ms
    decidable_of_iff (n = m ∧ ns = ms) (by rw [List.cons.injEq])
  | [], _ :: _       => .isFalse nofun
  | _ :: _, []       => .isFalse nofun

end

instance : DecidableEq Node :=
  Node.decEq

mutual

/-- The lexemes of a tree, from left to right. -/
def Node.lexemes : Node → List Lexeme
  | .leaf l            => [l]
  | .branch _ children => lexemesOf children

def lexemesOf : List Node → List Lexeme
  | []      => []
  | n :: ns => n.lexemes ++ lexemesOf ns

end

/-- The text of a stretch of source, from its first lexeme through its last. -/
def sourceText : List Lexeme → List Char
  | []      => []
  | l :: ls => l.text ++ ls.flatMap Lexeme.chars

namespace Node

def text (n : Node) : List Char :=
  sourceText n.lexemes

/-- Punctuation marks have no name; comments, words and branches do. -/
def isNamed : Node → Bool
  | leaf l     => l.kind ≠ .mark
  | branch _ _ => true

def isModifiers : Node → Bool
  | branch .modifiers _ => true
  | _                   => false

end Node

@[simp] theorem lexemesOf_append (ns ms : List Node) :
    lexemesOf (ns ++ ms) = lexemesOf ns ++ lexemesOf ms := by
  induction ns with
  | nil => simp [lexemesOf]
  | cons n ns ih => simp [lexemesOf, ih]

end Jsni.Java
