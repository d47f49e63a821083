import Jsni.Java.Body
import Jsni.Proofs.Java.Item

/-!
# Lexemes of bodies and sources

The parts of a type's body have its lexemes, whichever way it is read. So brackets can be grouped
before it is known what they stand for, and the tree of a source has the lexemes of the source.
-/

namespace Jsni.Java

/-! ## Methods -/

theorem lexemesOf_typeNodes (items : List Item) :
    lexemesOf (typeNodes items) = lexemesOf (nodes items) := by
  rw [typeNodes, lexemesOf_append, lexemesOf_wrap, lexemesOf_takeWhile_append]

theorem lexemesOf_headNodes (items : List Item) :
    lexemesOf (headNodes items) = lexemesOf (nodes items) := by
  simp only [headNodes]
  rw [lexemesOf_append]
  split
  · rw [lexemesOf_append, lexemesOf_wrap, lexemesOf_typeNodes, lexemesOf_take_append,
      lexemesOf_takeWhile_append]
  · rw [lexemesOf_typeNodes, lexemesOf_takeWhile_append]

theorem lexemesOf_tailNodes (items : List Item) :
    lexemesOf (tailNodes items) = lexemesOf (nodes items) := by
  simp only [tailNodes]
  rw [lexemesOf_append, lexemesOf_append, lexemesOf_wrap, lexemesOf_wrap,
    lexemesOf_takeWhile_append, lexemesOf_takeWhile_append]

theorem append_of_methodShape? {items : List Item} {m : MethodShape}
    (h : methodShape? items = some m) :
    m.head ++ m.name :: (m.between ++ m.parameters :: m.rest) = items := by
  unfold methodShape? at h
  split at h
  · cases h
  · have hitems := List.takeWhile_append_dropWhile (p := (! ·.isDecisive)) (l := items)
    split at h
    · cases h
    · rename_i parameters rest heq
      rw [heq] at hitems
      split at h
      · cases h
      · have hbefore := reverse_dropWhile_append Item.isComment (items.takeWhile (! ·.isDecisive))
        dsimp only at h
        split at h
        · cases h
        · rename_i name head hname
          rw [hname] at hbefore
          split at h
          · cases h
            -- The name is the last item before the parameters that is no comment.
            rw [← hbefore] at hitems
            simpa using hitems
          · cases h

theorem lexemesOf_methodShape {items : List Item} {m : MethodShape}
    (h : methodShape? items = some m) : lexemesOf m.nodes = lexemesOf (nodes items) := by
  rw [← append_of_methodShape? h, MethodShape.nodes]
  simp [lexemesOf_headNodes, lexemesOf_tailNodes]

/-! ## Members -/

theorem lexemes_member {items : List Item} (h : ∀ x ∈ items, x.Agrees) :
    (member items).lexemes = lexemesOf (nodes items) := by
  have hrest : ∀ x ∈ items.drop (modifiersLength 0 0 items), x.Agrees :=
    fun x hx => h x (List.mem_of_mem_drop hx)
  have htake := lexemesOf_take_append (modifiersLength 0 0 items) items
  simp only [member]
  split
  · rename_i shape hshape
    rw [Node.lexemes_branch, lexemesOf_append, lexemesOf_methodShape hshape]
    split <;> simp_all
  · rw [Node.lexemes_branch, lexemesOf_append, lexemesOf_statements hrest]
    split <;> simp_all

theorem lexemesOf_readMembers {pending items : List Item} (assigned : Bool)
    (hpending : ∀ x ∈ pending, x.Agrees) (hitems : ∀ x ∈ items, x.Agrees) :
    lexemesOf (readMembers pending assigned items)
      = lexemesOf (nodes pending.reverse) ++ lexemesOf (nodes items) := by
  induction items generalizing pending assigned with
  | nil => simp [readMembers]
  | cons x xs ih =>
    obtain ⟨hx, hxs⟩ := List.forall_mem_cons.1 hitems
    have hnil : ∀ y ∈ ([] : List Item), y.Agrees := by simp
    have hcons : ∀ y ∈ x :: pending, y.Agrees := List.forall_mem_cons.2 ⟨hx, hpending⟩
    -- An item is a stray `;`, ends the member that is pending, or joins it.
    rw [readMembers]
    split
    · rename_i hempty
      simp only [Bool.and_eq_true, decide_eq_true_eq] at hempty
      simp [hempty.1, ih false hnil hxs]
    · split
      · have hmember : ∀ y ∈ (x :: pending).reverse, y.Agrees :=
          fun y hy => hcons y (List.mem_reverse.1 hy)
        rw [lexemesOf_cons, lexemes_member hmember, ih false hnil hxs]
        simp
      · simp [ih _ hcons hxs]

theorem lexemesOf_classBody {items : List Item} (h : ∀ x ∈ items, x.Agrees) :
    lexemesOf (classBody items) = lexemesOf (nodes items) := by
  rw [classBody, lexemesOf_readMembers false (by simp) h]
  rfl

theorem lexemesOf_constants {items : List Item} (h : ∀ x ∈ items, x.Agrees) :
    lexemesOf (items.map fun x => if x.isGroup '\x7b' then x.bodyNode .classBody else x.node)
      = lexemesOf (nodes items) := by
  induction items with
  | nil => rfl
  | cons x xs ih =>
    obtain ⟨hx, hxs⟩ := List.forall_mem_cons.1 h
    rw [List.map_cons, lexemesOf_cons, ih hxs, nodes_cons, lexemesOf_cons]
    split
    · rw [Item.lexemes_bodyNode hx]
    · rfl

theorem lexemesOf_enumBody {items : List Item} (h : ∀ x ∈ items, x.Agrees) :
    lexemesOf (enumBody items) = lexemesOf (nodes items) := by
  have hconstants : ∀ x ∈ items.takeWhile (! ·.isMark ';'), x.Agrees :=
    fun x hx => h x ((List.takeWhile_sublist _).subset hx)
  have hcore : ∀ x ∈ ((items.dropWhile (! ·.isMark ';')).reverse.dropWhile Item.isComment).reverse,
      x.Agrees := by
    intro x hx
    have hrest := (List.dropWhile_sublist _).subset (List.mem_reverse.1 hx)
    exact h x ((List.dropWhile_sublist _).subset (List.mem_reverse.1 hrest))
  simp only [enumBody]
  rw [List.append_assoc, lexemesOf_append, lexemesOf_constants hconstants,
    lexemesOf_core_append _ _ _ _ (lexemesOf_classBody hcore), reverse_dropWhile_append,
    lexemesOf_takeWhile_append]

@[simp] theorem lexemes_demote (n : Node) : (demote n).lexemes = n.lexemes := by
  unfold demote
  split <;> simp

theorem lexemesOf_annotationBody {items : List Item} (h : ∀ x ∈ items, x.Agrees) :
    lexemesOf (annotationBody items) = lexemesOf (nodes items) := by
  have hdemote (ns : List Node) : lexemesOf (ns.map demote) = lexemesOf ns := by
    induction ns with
    | nil => rfl
    | cons n ns ih => simp [ih]
  rw [annotationBody, hdemote, lexemesOf_classBody h]

/-! ## Brackets -/

theorem Contents.lexemesOf_plain_ofItems {items : List Item} (h : ∀ x ∈ items, x.Agrees) :
    lexemesOf (Contents.ofItems items).plain = lexemesOf (nodes items) :=
  lexemesOf_statements h

theorem Contents.lexemesOf_body_ofItems {items : List Item} (h : ∀ x ∈ items, x.Agrees)
    (kind : BodyKind) :
    lexemesOf ((Contents.ofItems items).body kind) = lexemesOf (nodes items) := by
  cases kind with
  | classBody => exact lexemesOf_classBody h
  | enumBody => exact lexemesOf_enumBody h
  | annotationBody => exact lexemesOf_annotationBody h

namespace Grouping

/-- The lexemes read so far. -/
def lexemes (g : Grouping) : List Lexeme :=
  lexemesOf (nodes g.outside.reverse)
    ++ g.brackets.reverse.flatMap fun b => b.opener :: lexemesOf (nodes b.items.reverse)

structure Agrees (g : Grouping) : Prop where
  outside : ∀ x ∈ g.outside, x.Agrees
  brackets : ∀ b ∈ g.brackets, ∀ x ∈ b.items, x.Agrees

theorem lexemes_add (g : Grouping) (x : Item) :
    (g.add x).lexemes = g.lexemes ++ x.node.lexemes := by
  unfold add
  split <;> simp_all [lexemes]

theorem Agrees.add {g : Grouping} (hg : g.Agrees) {x : Item} (hx : x.Agrees) :
    (g.add x).Agrees := by
  obtain ⟨outside, brackets⟩ := hg
  rcases g with ⟨_ | ⟨b, bs⟩, items⟩
  · exact ⟨List.forall_mem_cons.2 ⟨hx, outside⟩, brackets⟩
  · obtain ⟨hb, hbs⟩ := List.forall_mem_cons.1 brackets
    exact ⟨outside, List.forall_mem_cons.2 ⟨List.forall_mem_cons.2 ⟨hx, hb⟩, hbs⟩⟩

theorem length_add (g : Grouping) (x : Item) : (g.add x).brackets.length = g.brackets.length := by
  unfold add
  split <;> simp_all

/-- The item that a bracket becomes. -/
def closed (b : OpenBracket) (closer : Option Lexeme) : Item :=
  .group b.opener (Contents.ofItems (packAnnotations b.items.reverse)) closer

theorem agrees_packed {b : OpenBracket} (hb : ∀ x ∈ b.items, x.Agrees) :
    ∀ x ∈ packAnnotations b.items.reverse, x.Agrees :=
  agrees_packAnnotations fun x hx => hb x (List.mem_reverse.1 hx)

theorem agrees_closed {b : OpenBracket} (hb : ∀ x ∈ b.items, x.Agrees) (closer : Option Lexeme) :
    (closed b closer).Agrees := by
  intro kind
  rw [Contents.lexemesOf_body_ofItems (agrees_packed hb),
    Contents.lexemesOf_plain_ofItems (agrees_packed hb)]

theorem lexemes_closed {b : OpenBracket} (hb : ∀ x ∈ b.items, x.Agrees) (closer : Option Lexeme) :
    (closed b closer).node.lexemes
      = b.opener :: lexemesOf (nodes b.items.reverse) ++ closer.toList := by
  have hplain := Contents.lexemesOf_plain_ofItems (agrees_packed hb)
  rw [lexemesOf_packAnnotations] at hplain
  cases closer <;> simp [closed, Item.node, Item.bracketed, hplain]

theorem Agrees.close {g : Grouping} (hg : g.Agrees) (closer : Option Lexeme) :
    (g.close closer).Agrees := by
  obtain ⟨outside, brackets⟩ := hg
  rcases g with ⟨_ | ⟨b, bs⟩, items⟩
  · refine ⟨fun x hx => ?_, brackets⟩
    rcases List.mem_append.1 hx with hx | hx
    · obtain ⟨l, -, rfl⟩ := List.mem_map.1 hx
      exact trivial
    · exact outside x hx
  · -- The innermost bracket becomes an item of the next one.
    obtain ⟨hb, hbs⟩ := List.forall_mem_cons.1 brackets
    have hrest : Agrees ⟨bs, items⟩ := ⟨outside, hbs⟩
    exact hrest.add (agrees_closed hb closer)

theorem lexemes_close {g : Grouping} (hg : g.Agrees) (closer : Option Lexeme) :
    (g.close closer).lexemes = g.lexemes ++ closer.toList := by
  rcases g with ⟨_ | ⟨b, bs⟩, items⟩
  · cases closer <;> simp [close, lexemes, Item.node]
  · have hb := (List.forall_mem_cons.1 hg.brackets).1
    change (add ⟨bs, items⟩ (closed b closer)).lexemes = _
    rw [lexemes_add, lexemes_closed hb]
    simp [lexemes]

theorem length_close (g : Grouping) (closer : Option Lexeme) :
    (g.close closer).brackets.length = g.brackets.length - 1 := by
  rcases g with ⟨_ | ⟨b, bs⟩, items⟩
  · rfl
  · exact length_add ⟨bs, items⟩ (closed b closer)

theorem Agrees.step {g : Grouping} (hg : g.Agrees) (l : Lexeme) : (g.step l).Agrees := by
  unfold Grouping.step
  split
  · exact ⟨hg.outside, List.forall_mem_cons.2 ⟨by simp, hg.brackets⟩⟩
  · split
    · exact hg.close (some l)
    · exact hg.add trivial

theorem lexemes_step {g : Grouping} (hg : g.Agrees) (l : Lexeme) :
    (g.step l).lexemes = g.lexemes ++ [l] := by
  unfold step
  split
  · simp [lexemes]
  · split
    · exact lexemes_close hg (some l)
    · exact lexemes_add g (.lexeme l)

theorem foldl_step {g : Grouping} (hg : g.Agrees) (ls : List Lexeme) :
    (ls.foldl step g).Agrees ∧ (ls.foldl step g).lexemes = g.lexemes ++ ls := by
  induction ls generalizing g with
  | nil => exact ⟨hg, by simp⟩
  | cons l ls ih =>
    obtain ⟨hagrees, hlexemes⟩ := ih (hg.step l)
    exact ⟨hagrees, by rw [List.foldl_cons, hlexemes, lexemes_step hg]; simp⟩

theorem foldl_close {g : Grouping} (hg : g.Agrees) (bs : List OpenBracket) :
    (bs.foldl (fun g _ => g.close none) g).Agrees
      ∧ (bs.foldl (fun g _ => g.close none) g).lexemes = g.lexemes
      ∧ (bs.foldl (fun g _ => g.close none) g).brackets.length
        = g.brackets.length - bs.length := by
  induction bs generalizing g with
  | nil => exact ⟨hg, rfl, rfl⟩
  | cons b bs ih =>
    obtain ⟨hagrees, hlexemes, hlength⟩ := ih (hg.close none)
    refine ⟨hagrees, ?_, ?_⟩
    · rw [List.foldl_cons, hlexemes, lexemes_close hg]
      simp
    · rw [List.foldl_cons, hlength, length_close, List.length_cons]
      omega

/-- Once all brackets are closed, the items have all that was read. -/
theorem items_spec {g : Grouping} (hg : g.Agrees) :
    (∀ x ∈ g.items, x.Agrees) ∧ lexemesOf (nodes g.items) = g.lexemes := by
  -- Closing as many brackets as there are leaves none.
  obtain ⟨hagrees, hlexemes, hlength⟩ := foldl_close hg g.brackets
  rw [Nat.sub_self, List.length_eq_zero_iff] at hlength
  unfold items
  refine ⟨agrees_packAnnotations fun x hx => hagrees.outside x (List.mem_reverse.1 hx), ?_⟩
  rw [lexemesOf_packAnnotations, ← hlexemes, lexemes, hlength]
  simp

end Grouping

/-- A tree has the lexemes of its source, all of them and in order. -/
theorem lexemes_parse (source : String) : (parse source).lexemes = lexemes source := by
  have hempty : Grouping.Agrees ⟨[], []⟩ := ⟨by simp, by simp⟩
  -- Grouping keeps the lexemes, and so does reading the groups as statements.
  obtain ⟨hagrees, hlexemes⟩ := Grouping.foldl_step hempty (lexemes source)
  obtain ⟨hitems, hkeep⟩ := Grouping.items_spec hagrees
  rw [parse, Node.lexemes_branch, lexemesOf_statements hitems, hkeep, hlexemes]
  rfl

end Jsni.Java
