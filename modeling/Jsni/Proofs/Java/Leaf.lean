import Jsni.Proofs.Java.Block

/-!
# Comments in a tree

A comment is told by its place: the branches around it and the nodes before it. From its place
follows which declaration it belongs to and whether it is a block. The blocks of a source are those
of all its comments, whatever its tree is.
-/

namespace Jsni

open Text

namespace Java

/-! ## Places -/

/-- A branch around a node, with the children of the branch before the one that the node is in. -/
structure Ancestor where
  node : Node
  before : List Node

/-- The tree has the node below the given branches, innermost first. -/
inductive Node.Contains (root : Node) : List Ancestor → Node → Prop
  | root : Contains root [] root
  | child {around : List Ancestor} {role : Role} {before : List Node} {n : Node}
      {after : List Node} (parent : Contains root around (.branch role (before ++ n :: after))) :
      Contains root (⟨.branch role (before ++ n :: after), before⟩ :: around) n

theorem Node.Contains.parent_eq {root parent n : Node} {before : List Node}
    {around : List Ancestor} (h : root.Contains (⟨parent, before⟩ :: around) n) :
    ∃ role after, parent = .branch role (before ++ n :: after) ∧ root.Contains around parent := by
  cases h with
  | child hparent => exact ⟨_, _, rfl, hparent⟩

/-- A node stands for a stretch of what the tree stands for. -/
theorem Node.Contains.lexemes_isInfix {root n : Node} {around : List Ancestor}
    (h : root.Contains around n) : n.lexemes <:+: root.lexemes := by
  induction h with
  | root => exact List.infix_refl _
  | @child around role before n after _ ih =>
    apply List.IsInfix.trans _ ih
    rw [lexemes_branch, lexemesOf_append, lexemesOf_cons]
    exact ⟨lexemesOf before, lexemesOf after, by simp⟩

/-- A leaf with the branches around it, innermost first. -/
structure Leaf where
  lexeme : Lexeme
  ancestors : List Ancestor

def Node.HasLeaf (root : Node) (x : Leaf) : Prop :=
  root.Contains x.ancestors (.leaf x.lexeme)

mutual

/-- The leaves of a node below the given branches, in order. -/
def Node.leaves (around : List Ancestor) : Node → List Leaf
  | .leaf l               => [⟨l, around⟩]
  | .branch role children => leavesOf (.branch role children) around [] children

/-- The leaves of the children of a branch that come after `before`. -/
def leavesOf (parent : Node) (around : List Ancestor) (before : List Node) :
    List Node → List Leaf
  | []      => []
  | n :: ns =>
    n.leaves (⟨parent, before⟩ :: around) ++ leavesOf parent around (before ++ [n]) ns

end

mutual

theorem Node.map_lexeme_leaves (around : List Ancestor) :
    (n : Node) → (n.leaves around).map Leaf.lexeme = n.lexemes
  | .leaf l => by
    rw [Node.leaves, Node.lexemes_leaf]
    rfl
  | .branch role children => by
    rw [Node.leaves, Node.lexemes_branch, map_lexeme_leavesOf]

theorem map_lexeme_leavesOf (parent : Node) (around : List Ancestor) (before : List Node) :
    (ns : List Node) → (leavesOf parent around before ns).map Leaf.lexeme = lexemesOf ns
  | [] => by
    rw [leavesOf, lexemesOf_nil]
    rfl
  | n :: ns => by
    rw [leavesOf, List.map_append, n.map_lexeme_leaves, map_lexeme_leavesOf, lexemesOf_cons]

end

theorem leavesOf_append (parent : Node) (around : List Ancestor) (before ns ms : List Node) :
    leavesOf parent around before (ns ++ ms)
      = leavesOf parent around before ns ++ leavesOf parent around (before ++ ns) ms := by
  induction ns generalizing before with
  | nil => simp [leavesOf]
  | cons n ns ih => simp [leavesOf, ih]

mutual

theorem Node.Contains.hasLeaf {root : Node} {around : List Ancestor} {x : Leaf} :
    (n : Node) → root.Contains around n → x ∈ n.leaves around → root.HasLeaf x
  | .leaf l, hn, hx => by
    rw [Node.leaves, List.mem_singleton] at hx
    subst hx
    exact hn
  | .branch role children, hn, hx => by
    rw [Node.leaves] at hx
    exact @hasLeaf_of_mem_leavesOf root around role [] x children hn hx

theorem hasLeaf_of_mem_leavesOf {root : Node} {around : List Ancestor} {role : Role}
    {before : List Node} {x : Leaf} :
    (ns : List Node) → root.Contains around (.branch role (before ++ ns)) →
      x ∈ leavesOf (.branch role (before ++ ns)) around before ns → root.HasLeaf x
  | [], _, hx => by
    rw [leavesOf] at hx
    cases hx
  | n :: ns, hparent, hx => by
    rw [leavesOf] at hx
    rcases List.mem_append.1 hx with hx | hx
    · exact hparent.child.hasLeaf n hx
    · -- The node read joins the children before the next one.
      rw [List.append_cons] at hparent hx
      exact hasLeaf_of_mem_leavesOf ns hparent hx

end

theorem Node.Contains.leaves_subset {root n : Node} {around : List Ancestor}
    (h : root.Contains around n) : n.leaves around ⊆ root.leaves [] := by
  induction h with
  | root => exact List.Subset.refl _
  | child parent ih =>
    refine List.Subset.trans (fun x hx => ?_) ih
    rw [Node.leaves, leavesOf_append, leavesOf]
    exact List.mem_append_right _ (List.mem_append_left _ hx)

theorem Node.mem_leaves_iff {root : Node} {x : Leaf} : x ∈ root.leaves [] ↔ root.HasLeaf x := by
  constructor
  · exact fun hx => Contains.root.hasLeaf root hx
  · intro hx
    apply hx.leaves_subset
    rw [Node.leaves]
    exact List.mem_singleton_self x

/-! ## Owners -/

def Node.typeName? : Node → Option String
  | branch (.typeDeclaration name) _ => some name
  | _                                => none

/-- The names of the type declarations among the branches around a node, innermost first. -/
def typeNames (around : List Ancestor) : List String :=
  around.filterMap (·.node.typeName?)

/-- The declaration of a method or constructor, with the branches around it. -/
structure MethodDeclaration where
  name : String
  children : List Node
  ancestors : List Ancestor

namespace MethodDeclaration

def node (m : MethodDeclaration) : Node :=
  .branch (.methodDeclaration m.name) m.children

def header (m : MethodDeclaration) : MethodHeader :=
  ⟨m.name, nativeModifiers m.children⟩

end MethodDeclaration

/-- A comment belongs to the method that it is a child of, or else to the one that the named node
before it declares. -/
inductive Leaf.BelongsTo : Leaf → MethodDeclaration → Prop
  | parent {l : Lexeme} {name : String} {children before : List Node} {around : List Ancestor} :
      BelongsTo ⟨l, ⟨.branch (.methodDeclaration name) children, before⟩ :: around⟩
        ⟨name, children, around⟩
  | previous {l : Lexeme} {name : String} {children : List Node} {parent : Node}
      {before between : List Node} {around : List Ancestor}
      (hparent : ∀ name children, parent ≠ .branch (.methodDeclaration name) children)
      (hbetween : ∀ n ∈ between, ¬ n.isNamed) :
      BelongsTo
        ⟨l, ⟨parent, before ++ .branch (.methodDeclaration name) children :: between⟩ :: around⟩
        ⟨name, children, ⟨parent, before⟩ :: around⟩

theorem Node.methodHeader?_eq_some_iff {n : Node} {h : MethodHeader} :
    n.methodHeader? = some h
      ↔ ∃ name children, n = .branch (.methodDeclaration name) children
        ∧ h = ⟨name, nativeModifiers children⟩ := by
  constructor
  · intro hn
    unfold methodHeader? at hn
    split at hn
    · cases hn
      exact ⟨_, _, rfl, rfl⟩
    · cases hn
  · rintro ⟨name, children, rfl, rfl⟩
    rfl

theorem Node.methodHeader?_eq_none_iff {n : Node} :
    n.methodHeader? = none ↔ ∀ name children, n ≠ .branch (.methodDeclaration name) children := by
  constructor
  · rintro hn name children rfl
    cases hn
  · intro hn
    cases h : n.methodHeader? with
    | none => rfl
    | some header =>
      obtain ⟨name, children, rfl, -⟩ := methodHeader?_eq_some_iff.1 h
      exact absurd rfl (hn name children)

/-- The method that the last named one of some nodes declares. -/
def lastHeader? (ns : List Node) : Option MethodHeader :=
  (ns.reverse.find? Node.isNamed).bind Node.methodHeader?

theorem lastHeader?_concat (ns : List Node) (n : Node) :
    lastHeader? (ns ++ [n]) = if n.isNamed then n.methodHeader? else lastHeader? ns := by
  rw [lastHeader?, List.reverse_append, List.reverse_singleton, List.singleton_append,
    List.find?_cons]
  split <;> simp_all [lastHeader?]

theorem lastHeader?_eq_some_iff {ns : List Node} {h : MethodHeader} :
    lastHeader? ns = some h
      ↔ ∃ before name children between,
        ns = before ++ .branch (.methodDeclaration name) children :: between
          ∧ (∀ n ∈ between, ¬ n.isNamed) ∧ h = ⟨name, nativeModifiers children⟩ := by
  rw [lastHeader?, Option.bind_eq_some_iff]
  constructor
  · rintro ⟨n, hfind, hn⟩
    obtain ⟨-, between, before, hns, hbetween⟩ := List.find?_eq_some_iff_append.1 hfind
    obtain ⟨name, children, rfl, rfl⟩ := Node.methodHeader?_eq_some_iff.1 hn
    refine ⟨before.reverse, name, children, between.reverse, ?_, ?_, rfl⟩
    · rw [← List.reverse_reverse ns, hns]
      simp
    · simpa using hbetween
  · rintro ⟨before, name, children, between, rfl, hbetween, rfl⟩
    refine ⟨.branch (.methodDeclaration name) children, ?_, rfl⟩
    refine List.find?_eq_some_iff_append.2 ⟨rfl, between.reverse, before.reverse, ?_, ?_⟩
    · simp
    · simpa using hbetween

/-- What the innermost branch declares, if it is a method. -/
def parentHeader? (around : List Ancestor) : Option MethodHeader :=
  around.head?.bind (·.node.methodHeader?)

/-- What the named node before a place declares, if it is a method. -/
def previousHeader? (around : List Ancestor) : Option MethodHeader :=
  around.head?.bind (lastHeader? ·.before)

def Leaf.header? (x : Leaf) : Option MethodHeader :=
  parentHeader? x.ancestors <|> previousHeader? x.ancestors

theorem Leaf.header?_eq_some_iff {x : Leaf} {h : MethodHeader} :
    x.header? = some h ↔ ∃ m, x.BelongsTo m ∧ h = m.header := by
  obtain ⟨l, _ | ⟨⟨parent, before⟩, around⟩⟩ := x
  · simp only [header?, parentHeader?, previousHeader?]
    constructor
    · rintro ⟨⟩
    · rintro ⟨m, ⟨⟩, -⟩
  · simp only [header?, parentHeader?, previousHeader?, List.head?_cons, Option.bind_some]
    cases hparent : parent.methodHeader? with
    | some header =>
      -- The method around the comment takes precedence.
      obtain ⟨name, children, rfl, rfl⟩ := Node.methodHeader?_eq_some_iff.1 hparent
      constructor
      · rintro ⟨⟩
        exact ⟨⟨name, children, around⟩, .parent, rfl⟩
      · rintro ⟨m, hm, rfl⟩
        cases hm with
        | parent => rfl
        | previous hnot => exact absurd rfl (hnot name children)
    | none =>
      have hnot := Node.methodHeader?_eq_none_iff.1 hparent
      change lastHeader? before = some h ↔ _
      rw [lastHeader?_eq_some_iff]
      constructor
      · rintro ⟨before, name, children, between, rfl, hbetween, rfl⟩
        exact ⟨_, .previous hnot hbetween, rfl⟩
      · rintro ⟨m, hm, rfl⟩
        cases hm with
        | parent => exact absurd rfl (hnot _ _)
        | previous _ hbetween => exact ⟨_, _, _, _, rfl, hbetween, rfl⟩

/-- The types around a method are those around the comments that belong to it. -/
theorem Leaf.BelongsTo.typeNames_eq {x : Leaf} {m : MethodDeclaration} (h : x.BelongsTo m) :
    typeNames x.ancestors = typeNames m.ancestors := by
  cases h with
  | parent => rfl
  | previous => rfl

/-- The method that a comment belongs to stands in the same tree. -/
theorem Leaf.BelongsTo.contains {root : Node} {x : Leaf} {m : MethodDeclaration}
    (h : x.BelongsTo m) (hx : root.HasLeaf x) : root.Contains m.ancestors m.node := by
  cases h with
  | parent =>
    obtain ⟨_, _, -, hparent⟩ := hx.parent_eq
    exact hparent
  | previous =>
    obtain ⟨role, after, hchildren, hparent⟩ := hx.parent_eq
    dsimp only at hchildren
    -- The method is the child that follows `before`.
    rw [List.append_assoc, List.cons_append] at hchildren
    subst hchildren
    exact hparent.child

/-! ## Blocks -/

/-- The comment is a block: it opens as one and belongs to a method of a type. -/
structure Leaf.IsBlock (x : Leaf) : Prop where
  kind : x.lexeme.kind = .blockComment
  opening : Block.opening <+: x.lexeme.text
  owner : ∃ m, x.BelongsTo m ∧ typeNames m.ancestors ≠ []

/-- The block that a comment is. -/
def Leaf.block? (package : Option String) (x : Leaf) : Option Block :=
  blockOf? package (typeNames x.ancestors) x.header? x.lexeme

mutual

theorem Node.blocks_eq (package : Option String) (around : List Ancestor) :
    (n : Node) →
      n.blocks package (typeNames around) (parentHeader? around) (previousHeader? around)
        = (n.leaves around).filterMap (Leaf.block? package)
  | .leaf l => by
    rw [Node.blocks, Node.leaves, List.filterMap_cons, List.filterMap_nil]
    change (Leaf.block? package ⟨l, around⟩).toList = _
    cases Leaf.block? package ⟨l, around⟩ <;> rfl
  | .branch role children => by
    rw [Node.blocks.eq_def, Node.leaves, ← blocksOf_eq]
    cases role <;> rfl

theorem blocksOf_eq (package : Option String) (parent : Node) (around : List Ancestor)
    (before : List Node) :
    (ns : List Node) →
      blocksOf package (typeNames (⟨parent, before⟩ :: around)) parent.methodHeader?
          (lastHeader? before) ns
        = (leavesOf parent around before ns).filterMap (Leaf.block? package)
  | [] => by
    rw [blocksOf, leavesOf, List.filterMap_nil]
  | n :: ns => by
    have hnext := blocksOf_eq package parent around (before ++ [n]) ns
    rw [lastHeader?_concat] at hnext
    rw [blocksOf, leavesOf, List.filterMap_append, ← hnext, ← n.blocks_eq]
    rfl

end

/-! ## What a block says of its comment -/

theorem head?_qualifiedNames_isSome (package : Option String) (types : List String) :
    (qualifiedNames package types).head?.isSome ↔ types ≠ [] := by
  cases types with
  | nil => simp [qualifiedNames]
  | cons name outer =>
    rw [qualifiedNames]
    split <;> simp

theorem blockOf?_isSome_iff {package : Option String} {types : List String}
    {method : Option MethodHeader} {l : Lexeme} :
    (blockOf? package types method l).isSome ↔ l.isBlock ∧ types ≠ [] ∧ method.isSome := by
  rw [← head?_qualifiedNames_isSome package types]
  cases method <;> cases hhead : (qualifiedNames package types).head? <;>
    cases hblock : l.isBlock <;> simp [blockOf?, hhead, hblock]

/-- The block says what the method is called, whether it is native and in which types it stands. -/
structure IsBlockOf (package : Option String) (m : MethodDeclaration) (b : Block) : Prop where
  method : b.method = m.name
  isNative : b.isNative = nativeModifiers m.children
  enclosing : b.enclosing = qualifiedNames package (typeNames m.ancestors)
  declaringType : b.enclosing.head? = some b.declaringType

theorem exists_header_of_blockOf? {package : Option String} {types : List String}
    {method : Option MethodHeader} {l : Lexeme} {b : Block}
    (h : blockOf? package types method l = some b) :
    ∃ m, method = some m ∧ b.method = m.name ∧ b.isNative = m.isNative
      ∧ b.enclosing = qualifiedNames package types
      ∧ b.enclosing.head? = some b.declaringType := by
  obtain ⟨m, hm, h⟩ := Option.bind_eq_some_iff.1 h
  obtain ⟨declaringType, hdeclaring, h⟩ := Option.bind_eq_some_iff.1 h
  split at h
  split at h
  · cases h
    exact ⟨m, hm, rfl, rfl, rfl, hdeclaring⟩
  · cases h

namespace Leaf

theorem block?_isSome_iff {package : Option String} {x : Leaf} :
    (x.block? package).isSome ↔ x.IsBlock := by
  rw [block?, blockOf?_isSome_iff, Option.isSome_iff_exists]
  simp only [Lexeme.isBlock, Bool.and_eq_true, decide_eq_true_eq, List.isPrefixOf_iff_prefix,
    header?_eq_some_iff]
  constructor
  · rintro ⟨⟨hkind, hopening⟩, htypes, _, m, hm, -⟩
    exact ⟨hkind, hopening, m, hm, hm.typeNames_eq ▸ htypes⟩
  · rintro ⟨hkind, hopening, m, hm, htypes⟩
    exact ⟨⟨hkind, hopening⟩, hm.typeNames_eq ▸ htypes, _, m, hm, rfl⟩

theorem exists_of_block? {package : Option String} {x : Leaf} {b : Block}
    (h : x.block? package = some b) :
    IsComment x.lexeme b ∧ ∃ m, x.BelongsTo m ∧ IsBlockOf package m b := by
  obtain ⟨_, hheader, hmethod, hnative, henclosing, hdeclaring⟩ := exists_header_of_blockOf? h
  obtain ⟨m, hm, rfl⟩ := header?_eq_some_iff.1 hheader
  refine ⟨isComment_of_blockOf? h, m, hm, hmethod, hnative, ?_, hdeclaring⟩
  rw [henclosing, hm.typeNames_eq]

end Leaf

end Java

/-! ## Sources -/

theorem SourceUnit.blocks_ofTree (path : Path) (source : String) (root : Java.Node) :
    (ofTree path source root).blocks
      = (root.leaves []).filterMap (Java.Leaf.block? (ofTree path source root).package) :=
  root.blocks_eq _ []

/-- Each block of a source is a comment in its tree, of a method declared there. -/
theorem SourceUnit.exists_leaf_of_mem_blocks {path : Path} {source : String} {root : Java.Node}
    {b : Block}
    (hb : b ∈ (ofTree path source root).blocks) :
    ∃ x m, root.HasLeaf x ∧ Java.IsComment x.lexeme b ∧ x.BelongsTo m
      ∧ Java.IsBlockOf (ofTree path source root).package m b := by
  rw [blocks_ofTree] at hb
  obtain ⟨x, hx, hblock⟩ := List.mem_filterMap.1 hb
  obtain ⟨hcomment, m, hm, hof⟩ := Java.Leaf.exists_of_block? hblock
  exact ⟨x, m, Java.Node.mem_leaves_iff.1 hx, hcomment, hm, hof⟩

end Jsni
