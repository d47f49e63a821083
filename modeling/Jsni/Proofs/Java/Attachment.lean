import Jsni.Proofs.Java.Leaf

/-!
# Which comments are blocks

A tree of a source has blocks for the comments that open as one and belong to a method of a type,
one for each and in the order of the source. What a block says of its comment holds in the source.
-/

namespace Jsni

open Text

namespace Java

theorem Node.HasLeaf.mem_lexemes {root : Node} {x : Leaf} (h : root.HasLeaf x) :
    x.lexeme ∈ root.lexemes := by
  rw [← root.map_lexeme_leaves []]
  exact List.mem_map_of_mem (Node.mem_leaves_iff.2 h)

/-! ## What a block says -/

theorem closing_suffix_iff {inside : List Char} :
    Block.closing <:+ Block.opening ++ inside ↔ Block.closing <:+ inside := by
  refine ⟨fun h => ?_, fun h => h.trans (List.suffix_append ..)⟩
  rcases List.suffix_or_suffix_of_suffix h (List.suffix_append Block.opening inside) with
    hinside | ⟨overlap, hoverlap⟩
  · exact hinside
  · obtain ⟨before, hbefore⟩ := h
    rw [← hoverlap, ← List.append_assoc, List.append_cancel_right_eq] at hbefore
    rcases List.eq_nil_or_concat' overlap with rfl | ⟨init, c, rfl⟩
    · rw [← hoverlap]
      exact List.suffix_refl _
    · -- The opening ends with a character that the closing does not have.
      have hc := congrArg List.getLast? hbefore
      rw [← List.append_assoc, List.getLast?_concat] at hc
      obtain rfl : c = '\x7b' := Option.some.inj hc
      have hmem : '\x7b' ∈ Block.closing := by simp [← hoverlap]
      exact absurd hmem (by decide)

theorem IsComment.text_eq {l : Lexeme} {b : Block} (h : IsComment l b) :
    Block.opening ++ (b.body.toList ++ blockEnd b.terminated) = l.text := by
  have happend := append_blockBody h.opening
  rwa [h.body] at happend

theorem IsComment.terminated_iff {l : Lexeme} {b : Block} (h : IsComment l b) :
    b.terminated ↔ Block.closing <:+ l.text := by
  have hbody := congrArg Prod.snd h.body
  obtain ⟨inside, hinside⟩ := h.opening
  rw [← hinside, closing_suffix_iff]
  simp only [blockBody, ← hinside, List.drop_left] at hbody
  rw [← hbody]
  split <;> simp_all [List.isSuffixOf_iff_suffix]

/-- The block is the comment: it says where it stands, which method it belongs to, where its body
stands and whether it is closed. -/
structure Leaf.Describes (source : String) (x : Leaf) (b : Block) : Prop where
  method : ∃ m, x.BelongsTo m ∧ b.method = m.name
  offset : b.offset = x.lexeme.offset
  length : b.length = byteLength x.lexeme.text
  comment : slice? source b.offset b.length = some (.ofList x.lexeme.text)
  bodyOffset : b.bodyOffset = b.offset + 4
  body : slice? source b.bodyOffset b.body.utf8ByteSize = some b.body
  terminated_iff : b.terminated ↔ Block.closing <:+ x.lexeme.text
  text_of_terminated : b.terminated →
    x.lexeme.text = Block.opening ++ b.body.toList ++ Block.closing
  text_of_not_terminated : ¬ b.terminated → x.lexeme.text = Block.opening ++ b.body.toList

theorem Leaf.describes_of_block? {package : Option String} {source : String} {x : Leaf} {b : Block}
    (hx : slice? source x.lexeme.offset (byteLength x.lexeme.text) = some (.ofList x.lexeme.text))
    (h : x.block? package = some b) : x.Describes source b := by
  obtain ⟨hcomment, m, hm, hof⟩ := exists_of_block? h
  have htext := hcomment.text_eq
  refine ⟨⟨m, hm, hof.method⟩, hcomment.offset, hcomment.length, ?_, ?_, hcomment.slice?_body hx,
    hcomment.terminated_iff, fun hterminated => ?_, fun hterminated => ?_⟩
  · rw [hcomment.offset, hcomment.length, hx]
  · rw [hcomment.bodyOffset, hcomment.offset]
    rfl
  · rw [← htext, hterminated, List.append_assoc]
    rfl
  · rw [← htext, Bool.eq_false_iff.2 hterminated, blockEnd, if_neg Bool.false_ne_true,
      List.append_nil]

end Java

/-! ## Sources -/

theorem forall₂_filter_filterMap {f : α → Option β} {R : α → β → Prop} {xs : List α}
    (h : ∀ x ∈ xs, ∀ y, f x = some y → R x y) :
    List.Forall₂ R (xs.filter fun x => (f x).isSome) (xs.filterMap f) := by
  induction xs with
  | nil => exact .nil
  | cons x xs ih =>
    have hxs := ih fun y hy => h y (List.mem_cons_of_mem x hy)
    cases hx : f x with
    | none => simpa [hx] using hxs
    | some y =>
      rw [List.filter_cons_of_pos (by simp [hx]), List.filterMap_cons_some hx]
      exact .cons (h x (List.mem_cons_self ..) y hx) hxs

/-- Whatever the tree of a source is, its blocks are the comments that open as one and belong to a
method of a type. Each is reported once, in the order of the source, with the place and the body
that it has there. -/
theorem SourceUnit.blocks_describe_comments {source : String} {root : Java.Node}
    (h : root.IsTreeOf source) (path : Path) :
    (∃ comments : List Java.Leaf,
        (∀ x, x ∈ comments ↔ root.HasLeaf x ∧ x.IsBlock)
          ∧ comments.Pairwise (fun x y =>
              x.lexeme.offset + byteLength x.lexeme.text ≤ y.lexeme.offset)
          ∧ List.Forall₂ (Java.Leaf.Describes source) comments (ofTree path source root).blocks)
      ∧ (ofTree path source root).blocks.Pairwise
          fun b c => b.offset + b.length ≤ c.offset := by
  have hleaves : (root.leaves []).Pairwise fun x y =>
      x.lexeme.offset + byteLength x.lexeme.text ≤ y.lexeme.offset := by
    have hordered := h.ordered
    rwa [← root.map_lexeme_leaves [], List.pairwise_map] at hordered
  have hdescribes : ∀ x ∈ root.leaves [], ∀ b,
      x.block? (ofTree path source root).package = some b → x.Describes source b := by
    intro x hx b hb
    exact Java.Leaf.describes_of_block?
      (h.slice _ (Java.Node.mem_leaves_iff.1 hx).mem_lexemes) hb
  have hforall := forall₂_filter_filterMap hdescribes
  rw [← blocks_ofTree] at hforall
  refine ⟨⟨_, fun x => ?_, hleaves.filter _, hforall⟩, ?_⟩
  · rw [List.mem_filter, Java.Node.mem_leaves_iff, Java.Leaf.block?_isSome_iff]
  · refine pairwise_of_forall₂ hforall ?_ (hleaves.filter _)
    intro x y b c hb hc hle
    rwa [hb.offset, hb.length, hc.offset]

/-- A block within its method, a comment after a field and one after a method of a nested type. -/
def nestedSource : String :=
  "class A\x7bnative void f()/*-\x7bé\x7d-*/;int i;/*-\x7by\x7d-*/class B\x7bvoid g()\x7b\x7d/*-\x7bz*/\x7d\x7d"

theorem ofSource_nested :
    (SourceUnit.ofSource "A.java" nestedSource).blocks = [
      ⟨"A", "f", true, ["A"], 23, 10, "é", 27, true⟩,
      ⟨"A.B", "g", false, ["A.B", "A"], 67, 7, "z*/", 71, false⟩] := by
  decide +kernel

theorem SourceUnit.blocks_describe_comments_nested :
    (Java.parse nestedSource).IsTreeOf nestedSource
      ∧ ∃ comments : List Java.Leaf, comments.map (·.lexeme.offset) = [23, 67]
        ∧ (∀ x, x ∈ comments ↔ (Java.parse nestedSource).HasLeaf x ∧ x.IsBlock)
        ∧ List.Forall₂ (Java.Leaf.Describes nestedSource) comments
          (ofSource "A.java" nestedSource).blocks := by
  have htree := Java.isTreeOf_parse nestedSource
  obtain ⟨⟨comments, hmem, -, hforall⟩, -⟩ := blocks_describe_comments htree "A.java"
  have hoffsets : List.Forall₂ Eq (comments.map (·.lexeme.offset))
      ((ofSource "A.java" nestedSource).blocks.map Block.offset) :=
    List.forall₂_map_left_iff.2 (List.forall₂_map_right_iff.2 (hforall.imp fun _ _ h =>
      h.offset.symm))
  rw [List.forall₂_eq_eq_eq, ofSource_nested] at hoffsets
  exact ⟨htree, comments, hoffsets, hmem, hforall⟩

end Jsni
