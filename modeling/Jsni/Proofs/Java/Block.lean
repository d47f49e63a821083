import Jsni.Java.Unit
import Jsni.Proofs.Computation
import Jsni.Proofs.Java.Body
import Jsni.Proofs.Java.Lexeme

/-!
# Where blocks stand

A block is a comment of its source, and its body stands where the block says.
-/

namespace Jsni

open Text

namespace Java

/-! ## Bodies -/

/-- The part of a block's text after its body. -/
def blockEnd (terminated : Bool) : List Char :=
  if terminated then Block.closing else []

theorem append_blockBody {text : List Char} (h : Block.opening <+: text) :
    Block.opening ++ ((blockBody text).1 ++ blockEnd (blockBody text).2) = text := by
  obtain ⟨inside, rfl⟩ := h
  simp only [blockBody, List.drop_left]
  split
  · rename_i hclosing
    obtain ⟨body, rfl⟩ := List.isSuffixOf_iff_suffix.1 hclosing
    simp [blockEnd]
  · simp [blockEnd]

/-- The block is the comment that `l` is. -/
structure IsComment (l : Lexeme) (b : Block) : Prop where
  opening : Block.opening <+: l.text
  offset : b.offset = l.offset
  length : b.length = byteLength l.text
  bodyOffset : b.bodyOffset = l.offset + byteLength Block.opening
  body : blockBody l.text = (b.body.toList, b.terminated)

theorem isComment_of_blockOf? {package : Option String} {types : List String}
    {method : Option MethodHeader} {l : Lexeme} {b : Block}
    (h : blockOf? package types method l = some b) : IsComment l b := by
  unfold blockOf? at h
  obtain ⟨m, hm, h⟩ := Option.bind_eq_some_iff.1 h
  obtain ⟨declaringType, hdeclaring, h⟩ := Option.bind_eq_some_iff.1 h
  split at h
  rename_i body terminated hbody
  split at h
  · rename_i hblock
    cases h
    simp only [Lexeme.isBlock, Bool.and_eq_true] at hblock
    exact ⟨List.isPrefixOf_iff_prefix.1 hblock.2, rfl, rfl, rfl, by simp [hbody]⟩
  · cases h

/-- A block ends where its comment does, and its body lies within it. -/
theorem IsComment.body_range {l : Lexeme} {b : Block} (h : IsComment l b) :
    b.offset ≤ b.bodyOffset ∧ b.bodyOffset + b.body.utf8ByteSize ≤ b.offset + b.length := by
  have happend := congrArg byteLength (append_blockBody h.opening)
  rw [h.body] at happend
  simp only [byteLength_append, byteLength_toList] at happend
  rw [h.offset, h.length, h.bodyOffset]
  omega

/-- The body of a block stands where the block says, if the comment does. -/
theorem IsComment.slice?_body {source : String} {l : Lexeme} {b : Block} (h : IsComment l b)
    (hl : slice? source l.offset (byteLength l.text) = some (.ofList l.text)) :
    slice? source b.bodyOffset b.body.utf8ByteSize = some b.body := by
  have happend := append_blockBody h.opening
  rw [h.body] at happend
  rw [h.bodyOffset]
  -- The body is a slice of the comment, and the comment one of the source.
  refine slice?_trans hl (slice?_eq_some_iff.2 ?_)
  exact ⟨Block.opening, blockEnd b.terminated, by rw [String.toList_ofList, happend], rfl,
    byteLength_toList b.body⟩

/-! ## Trees -/

/-- The blocks are comments among the lexemes, one each and in order. -/
def AreComments (ls : List Lexeme) (bs : List Block) : Prop :=
  ∃ comments, comments.Sublist ls ∧ List.Forall₂ IsComment comments bs

theorem AreComments.append {ls ls' : List Lexeme} {bs bs' : List Block} (h : AreComments ls bs)
    (h' : AreComments ls' bs') : AreComments (ls ++ ls') (bs ++ bs') := by
  obtain ⟨comments, hsub, hcomments⟩ := h
  obtain ⟨comments', hsub', hcomments'⟩ := h'
  exact ⟨comments ++ comments', hsub.append hsub', List.rel_append hcomments hcomments'⟩

theorem areComments_toList {l : Lexeme} {b : Option Block} (h : ∀ x, b = some x → IsComment l x) :
    AreComments [l] b.toList := by
  cases b with
  | none => exact ⟨[], List.nil_sublist _, .nil⟩
  | some x => exact ⟨[l], .refl _, .cons (h x rfl) .nil⟩

mutual

theorem Node.areComments_blocks {package : Option String} {types : List String}
    {parent before : Option MethodHeader} :
    (n : Node) → AreComments n.lexemes (n.blocks package types parent before)
  | .leaf l => by
    rw [Node.blocks, Node.lexemes_leaf]
    exact areComments_toList fun _ => isComment_of_blockOf?
  | .branch role children => by
    rw [Node.blocks.eq_def, Node.lexemes_branch]
    exact areComments_blocksOf children

theorem areComments_blocksOf {package : Option String} {types : List String}
    {parent before : Option MethodHeader} :
    (ns : List Node) → AreComments (lexemesOf ns) (blocksOf package types parent before ns)
  | [] => by
    rw [blocksOf]
    exact ⟨[], List.nil_sublist _, .nil⟩
  | n :: ns => by
    rw [blocksOf, lexemesOf_cons]
    exact n.areComments_blocks.append (areComments_blocksOf ns)

end

/-- Each leaf of the tree has its text where it says in the source, and the leaves stand one after
the other. -/
structure Node.IsTreeOf (root : Node) (source : String) : Prop where
  slice : ∀ l ∈ root.lexemes,
    slice? source l.offset (byteLength l.text) = some (.ofList l.text)
  ordered : root.lexemes.Pairwise fun l m => l.offset + byteLength l.text ≤ m.offset

theorem isTreeOf_parse (source : String) : (parse source).IsTreeOf source where
  slice _ hl := slice?_of_mem_lexemes (lexemes_parse source ▸ hl)
  ordered := lexemes_parse source ▸ pairwise_lexemes source

end Java

/-! ## Sources -/

namespace SourceUnit

/-- The unit is read off a tree of its source. -/
def IsParsed (u : SourceUnit) : Prop :=
  ∃ root : Java.Node, root.IsTreeOf u.source ∧ u = ofTree u.path u.source root

variable {path : Path} {source : String} {root : Java.Node}

theorem isParsed_ofTree (h : root.IsTreeOf source) : (ofTree path source root).IsParsed :=
  ⟨root, h, rfl⟩

theorem areComments_blocks (path : Path) (source : String) (root : Java.Node) :
    Java.AreComments root.lexemes (ofTree path source root).blocks :=
  root.areComments_blocks

variable {u : SourceUnit} {b : Block}

/-- Each block is a comment that stands in the source. -/
theorem IsParsed.exists_lexeme (hu : u.IsParsed) (hb : b ∈ u.blocks) :
    ∃ l, Java.IsComment l b
      ∧ slice? u.source l.offset (byteLength l.text) = some (.ofList l.text) := by
  obtain ⟨root, htree, hroot⟩ := hu
  rw [hroot] at hb
  obtain ⟨comments, hsub, hcomments⟩ := areComments_blocks u.path u.source root
  obtain ⟨l, hl, hcomment⟩ := exists_of_mem_forall₂ hcomments hb
  exact ⟨l, hcomment, htree.slice l (hsub.subset hl)⟩

/-- Each block ends before the next one begins. -/
theorem IsParsed.pairwise_blocks (hu : u.IsParsed) :
    u.blocks.Pairwise fun b c => b.offset + b.length ≤ c.offset := by
  obtain ⟨root, htree, hroot⟩ := hu
  obtain ⟨comments, hsub, hcomments⟩ := areComments_blocks u.path u.source root
  rw [hroot]
  refine pairwise_of_forall₂ hcomments ?_ (htree.ordered.sublist hsub)
  intro _ _ b c hb hc hle
  rwa [hb.offset, hb.length, hc.offset]

theorem IsParsed.slice?_isSome (hu : u.IsParsed) (hb : b ∈ u.blocks) :
    (slice? u.source b.offset b.length).isSome := by
  obtain ⟨l, hcomment, hslice⟩ := hu.exists_lexeme hb
  rw [hcomment.offset, hcomment.length, hslice]
  rfl

theorem IsParsed.slice?_body (hu : u.IsParsed) (hb : b ∈ u.blocks) :
    slice? u.source b.bodyOffset b.body.utf8ByteSize = some b.body := by
  obtain ⟨l, hcomment, hslice⟩ := hu.exists_lexeme hb
  exact hcomment.slice?_body hslice

end SourceUnit

end Jsni
