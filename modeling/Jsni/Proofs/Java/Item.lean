import Jsni.Java.Statement

/-!
# Lexemes of items

No item and no lexeme within it is lost, moved or read twice when items are wrapped, packed into
annotations or read as statements.
-/

namespace Jsni.Java

@[simp] theorem Node.lexemes_leaf (l : Lexeme) : (Node.leaf l).lexemes = [l] := by
  rw [Node.lexemes]

@[simp] theorem Node.lexemes_branch (role : Role) (children : List Node) :
    (Node.branch role children).lexemes = lexemesOf children := by
  rw [Node.lexemes]

@[simp] theorem lexemesOf_nil : lexemesOf [] = [] := by
  rw [lexemesOf]

@[simp] theorem lexemesOf_cons (n : Node) (ns : List Node) :
    lexemesOf (n :: ns) = n.lexemes ++ lexemesOf ns := by
  rw [lexemesOf]

@[simp] theorem nodes_nil : nodes [] = [] := rfl

@[simp] theorem nodes_cons (x : Item) (xs : List Item) : nodes (x :: xs) = x.node :: nodes xs := rfl

@[simp] theorem nodes_append (xs ys : List Item) : nodes (xs ++ ys) = nodes xs ++ nodes ys := by
  simp [nodes]

/-! ## Splitting -/

theorem lexemesOf_takeWhile_append (p : Item → Bool) (items : List Item) :
    lexemesOf (nodes (items.takeWhile p)) ++ lexemesOf (nodes (items.dropWhile p))
      = lexemesOf (nodes items) := by
  rw [← lexemesOf_append, ← nodes_append, List.takeWhile_append_dropWhile]

theorem lexemesOf_take_append (n : Nat) (items : List Item) :
    lexemesOf (nodes (items.take n)) ++ lexemesOf (nodes (items.drop n))
      = lexemesOf (nodes items) := by
  rw [← lexemesOf_append, ← nodes_append, List.take_append_drop]

theorem reverse_dropWhile_append (p : Item → Bool) (items : List Item) :
    (items.reverse.dropWhile p).reverse ++ (items.reverse.takeWhile p).reverse = items := by
  rw [← List.reverse_append, List.takeWhile_append_dropWhile, List.reverse_reverse]

/-- The core of a run of items as one branch, and the items at its end on their own. -/
theorem lexemesOf_core_append (role : Role) (core trailing : List Item) (ns : List Node)
    (hns : lexemesOf ns = lexemesOf (nodes core)) :
    lexemesOf ((if core = [] then [] else [.branch role ns]) ++ nodes trailing)
      = lexemesOf (nodes (core ++ trailing)) := by
  split
  · simp_all
  · simp [hns]

theorem lexemesOf_wrap (items : List Item) : lexemesOf (wrap items) = lexemesOf (nodes items) := by
  rw [wrap, List.append_assoc, lexemesOf_append, lexemesOf_core_append _ _ _ _ rfl,
    reverse_dropWhile_append, lexemesOf_takeWhile_append]

/-! ## Groups -/

/-- However a group is read, its lexemes are the same. -/
def Item.Agrees : Item → Prop
  | .group _ contents _ => ∀ kind, lexemesOf (contents.body kind) = lexemesOf contents.plain
  | _                   => True

theorem Item.lexemes_bodyNode {x : Item} (hx : x.Agrees) (kind : BodyKind) :
    (x.bodyNode kind).lexemes = x.node.lexemes := by
  cases x with
  | lexeme l => rfl
  | group opener contents closer => simp [bodyNode, node, bracketed, hx kind]
  | annotated parts => rfl

/-! ## Annotations -/

theorem lexemesOf_packAnnotations (items : List Item) :
    lexemesOf (nodes (packAnnotations items)) = lexemesOf (nodes items) := by
  fun_induction packAnnotations items with
  | case1 => rfl
  | case2 x xs hat hn ih => simp [ih]
  | case3 x xs hat n hn ih =>
    -- The annotation takes the first items, and the others are packed on their own.
    have htake := lexemesOf_take_append (n + 1) xs
    rw [nodes_cons, lexemesOf_cons, ih]
    simp [Item.node, ← htake]
  | case4 x xs hat ih => simp [ih]

theorem agrees_packAnnotations {items : List Item} (h : ∀ x ∈ items, x.Agrees) :
    ∀ x ∈ packAnnotations items, x.Agrees := by
  fun_induction packAnnotations items with
  | case1 => simp
  | case2 x xs hat hn ih =>
    rw [List.forall_mem_cons] at h ⊢
    exact ⟨h.1, ih h.2⟩
  | case3 x xs hat n hn ih =>
    rw [List.forall_mem_cons] at h ⊢
    exact ⟨trivial, ih fun y hy => h.2 y (List.mem_of_mem_drop hy)⟩
  | case4 x xs hat ih =>
    rw [List.forall_mem_cons] at h ⊢
    exact ⟨h.1, ih h.2⟩

/-! ## Statements -/

@[simp] theorem unfinished_any (previous : List Char) :
    (Expectation.any previous).unfinished = [] := rfl

@[simp] theorem unfinished_typeBody (kind : BodyKind) (name : String) (header : List Node) :
    (Expectation.typeBody kind name header).unfinished = header.reverse := rfl

@[simp] theorem unfinished_createdClass (angles : Nat) :
    (Expectation.createdClass angles).unfinished = [] := rfl

@[simp] theorem unfinished_anonymousBody : Expectation.anonymousBody.unfinished = [] := rfl

@[simp] theorem unfinished_directive (role : Role) (start : List Node) :
    (Expectation.directive role start).unfinished = start.reverse := rfl

/-- A keyword either opens a declaration that begins with it or leaves nothing open. -/
theorem expectAfter_cases (previous : List Char) (x : Item) (following : List Item) :
    expectAfter previous x following = none
      ∨ expectAfter previous x following = some (.createdClass 0)
      ∨ (∃ kind name, expectAfter previous x following = some (.typeBody kind name [x.node]))
      ∨ ∃ role, expectAfter previous x following = some (.directive role [x.node]) := by
  unfold expectAfter
  split
  · exact .inr (.inr (.inl ⟨_, _, rfl⟩))
  · split
    · exact .inr (.inl rfl)
    · split
      · exact .inr (.inr (.inr ⟨_, rfl⟩))
      · split
        · exact .inr (.inr (.inr ⟨_, rfl⟩))
        · exact .inl rfl

theorem lexemesOf_readAny (previous : List Char) (x : Item) (following : List Item) :
    lexemesOf (readAny previous x following).1
        ++ lexemesOf (readAny previous x following).2.unfinished = x.node.lexemes := by
  unfold readAny
  rcases expectAfter_cases previous x following with h | h | ⟨kind, name, h⟩ | ⟨role, h⟩ <;>
    simp [h]

/-- What an item finishes and what it leaves open is what was open before, and the item. -/
theorem lexemesOf_readItem (e : Expectation) {x : Item} (hx : x.Agrees) (following : List Item) :
    lexemesOf (readItem e x following).1 ++ lexemesOf (readItem e x following).2.unfinished
      = lexemesOf e.unfinished ++ x.node.lexemes := by
  -- An item that does not go with what is expected is read as if nothing were.
  cases e with
  | any previous => simp [readItem, lexemesOf_readAny]
  | typeBody kind name header =>
    simp only [readItem]
    split <;> simp [Item.lexemes_bodyNode hx]
  | createdClass angles =>
    simp only [readItem]
    repeat' split
    all_goals simp [lexemesOf_readAny]
  | anonymousBody =>
    simp only [readItem]
    repeat' split
    all_goals simp [lexemesOf_readAny, Item.lexemes_bodyNode hx]
  | directive role start =>
    simp only [readItem]
    split <;> simp

theorem lexemesOf_readStatements (e : Expectation) {items : List Item}
    (h : ∀ x ∈ items, x.Agrees) :
    lexemesOf (readStatements e items) = lexemesOf e.unfinished ++ lexemesOf (nodes items) := by
  induction items generalizing e with
  | nil => simp [readStatements]
  | cons x xs ih =>
    rw [List.forall_mem_cons] at h
    rw [readStatements, lexemesOf_append, ih _ h.2, ← List.append_assoc,
      lexemesOf_readItem e h.1 xs, nodes_cons, lexemesOf_cons, List.append_assoc]

theorem lexemesOf_statements {items : List Item} (h : ∀ x ∈ items, x.Agrees) :
    lexemesOf (statements items) = lexemesOf (nodes items) := by
  rw [statements, lexemesOf_readStatements _ h]
  rfl

end Jsni.Java
