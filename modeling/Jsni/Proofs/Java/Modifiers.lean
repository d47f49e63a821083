import Jsni.Proofs.Java.Leaf
import Jsni.Proofs.Java.SourceText

/-!
# Native methods

Whether a method is native is read off the text of its modifiers, cut at white space. A keyword
counts if white space sets it off, and so does the word in a comment or in a string.
-/

namespace Jsni

open Text

namespace Java

theorem mem_lexemesOf_of_leaf {ns : List Node} {l : Lexeme} (h : .leaf l ∈ ns) :
    l ∈ lexemesOf ns := by
  obtain ⟨before, after, rfl⟩ := List.append_of_mem h
  simp [lexemesOf_cons, Node.lexemes_leaf]

namespace MethodDeclaration

/-- The parts of the modifiers of a method. -/
def modifiers (m : MethodDeclaration) : List Node :=
  ((m.children.find? Node.isModifiers).map Node.children).getD []

/-- The keyword is one of the modifiers. -/
def HasModifier (m : MethodDeclaration) (keyword : String) : Prop :=
  ∃ l, .leaf l ∈ m.modifiers ∧ l.isWord keyword

/-- The modifiers are the parts of a child, if there is one for them. -/
theorem modifiers_cases (m : MethodDeclaration) :
    (m.children.find? Node.isModifiers = none ∧ m.modifiers = [])
      ∨ ∃ before after,
        m.children.find? Node.isModifiers = some (.branch .modifiers m.modifiers)
          ∧ m.children = before ++ .branch .modifiers m.modifiers :: after := by
  cases hfind : m.children.find? Node.isModifiers with
  | none => exact .inl ⟨rfl, by rw [modifiers, hfind]; rfl⟩
  | some n =>
    obtain ⟨hn, before, after, hchildren, -⟩ := List.find?_eq_some_iff_append.1 hfind
    unfold Node.isModifiers at hn
    split at hn
    · rename_i children
      have hmodifiers : m.modifiers = children := by
        rw [modifiers, hfind]
        rfl
      rw [hmodifiers]
      exact .inr ⟨before, after, rfl, hchildren⟩
    · cases hn

theorem nativeModifiers_iff (m : MethodDeclaration) :
    nativeModifiers m.children
      ↔ "native".toList ∈ words (sourceText (lexemesOf m.modifiers)) := by
  rcases m.modifiers_cases with ⟨hfind, hmodifiers⟩ | ⟨_, _, hfind, -⟩
  · rw [nativeModifiers, hfind, hmodifiers, lexemesOf_nil, sourceText, words_nil]
    simp
  · rw [nativeModifiers, hfind, ← Node.lexemes_branch .modifiers]
    change List.any _ _ ↔ _
    simp only [Node.text, List.any_eq_true, decide_eq_true_eq, exists_eq_right]

theorem modifiers_isInfix {root : Node} {m : MethodDeclaration}
    (h : root.Contains m.ancestors m.node) : lexemesOf m.modifiers <:+: root.lexemes := by
  rcases m.modifiers_cases with ⟨-, hmodifiers⟩ | ⟨before, after, -, hchildren⟩
  · rw [hmodifiers, lexemesOf_nil]
    exact List.nil_infix
  · rw [node, hchildren] at h
    exact h.child.lexemes_isInfix

/-- The keyword occurs in the modifiers only where it is one of them, set off by white space. -/
structure IsPlain (m : MethodDeclaration) (keyword : String) : Prop where
  leaf : ∀ l ∈ lexemesOf m.modifiers, l.isWord keyword → .leaf l ∈ m.modifiers
  apart : ∀ before l after, lexemesOf m.modifiers = before ++ l :: after → l.isWord keyword →
    StandsApart before l after
  elsewhere : ∀ l ∈ lexemesOf m.modifiers, l.isComment ∨ l.kind = .literal →
    keyword.toList ∉ words l.text

theorem IsPlain.hasWord_iff {m : MethodDeclaration} {keyword : String} (h : m.IsPlain keyword) :
    HasWord keyword.toList (lexemesOf m.modifiers) ↔ m.HasModifier keyword := by
  constructor
  · intro hword
    cases hword with
    | @lexeme before l after hls hkind htext hapart =>
      have hl : l.isWord keyword := by simp [Lexeme.isWord, hkind, htext]
      exact ⟨l, h.leaf l (by simp [hls]) hl, hl⟩
    | within hl hkind hmem => exact absurd hmem (h.elsewhere _ hl hkind)
  · rintro ⟨l, hl, hword⟩
    obtain ⟨hkind, htext⟩ : l.kind = .word ∧ l.text = keyword.toList := by
      simpa [Lexeme.isWord] using hword
    obtain ⟨before, after, hls⟩ := List.append_of_mem (mem_lexemesOf_of_leaf hl)
    exact .lexeme hls hkind htext (h.apart _ _ _ hls hword)

end MethodDeclaration

end Java

namespace Java

/-- In the tree, the block is a comment that belongs to the method. -/
def MethodDeclaration.Owns (m : MethodDeclaration) (root : Node) (b : Block) : Prop :=
  ∃ x, root.HasLeaf x ∧ IsComment x.lexeme b ∧ x.BelongsTo m

/-- No two leaves of a source have the same place. -/
theorem Node.HasLeaf.eq_of_offset {root : Node} {source : String} {x y : Leaf}
    (htree : root.IsTreeOf source) (hspelled : AreSpelled root.lexemes) (hx : root.HasLeaf x)
    (hy : root.HasLeaf y) (h : x.lexeme.offset = y.lexeme.offset) : x = y := by
  have hordered := htree.ordered
  rw [← root.map_lexeme_leaves []] at hspelled hordered
  rw [List.pairwise_map] at hordered
  have hne : (root.leaves []).Pairwise fun x y => x.lexeme.offset ≠ y.lexeme.offset := by
    refine hordered.imp_of_mem fun {x y} hx _ hle => ?_
    have hpos := byteLength_pos (hspelled.each _ (List.mem_map_of_mem hx)).ne_nil
    omega
  have : Std.Symm fun x y : Leaf => x.lexeme.offset ≠ y.lexeme.offset := ⟨fun _ _ => Ne.symm⟩
  by_contra hxy
  exact hne.forall (mem_leaves_iff.2 hx) (mem_leaves_iff.2 hy) hxy h

/-- What a comment belongs to has one name and one answer to whether it is native. -/
theorem Leaf.BelongsTo.header_eq {x : Leaf} {m m' : MethodDeclaration} (h : x.BelongsTo m)
    (h' : x.BelongsTo m') : m.header = m'.header := by
  have hheader := header?_eq_some_iff.2 ⟨m, h, rfl⟩
  rw [header?_eq_some_iff.2 ⟨m', h', rfl⟩] at hheader
  exact (Option.some.inj hheader).symm

end Java

/-! ## Sources -/

theorem SourceUnit.isNative_of_owns {path : Path} {source : String} {root : Java.Node} {b : Block}
    {m : Java.MethodDeclaration} (htree : root.IsTreeOf source)
    (hspelled : Java.AreSpelled root.lexemes) (hb : b ∈ (ofTree path source root).blocks)
    (hm : m.Owns root b) : b.isNative = Java.nativeModifiers m.children := by
  obtain ⟨x, hx, hcomment, hm⟩ := hm
  obtain ⟨y, m', hy, hcomment', hm', hof⟩ := exists_leaf_of_mem_blocks hb
  obtain rfl : x = y :=
    hx.eq_of_offset htree hspelled hy (hcomment.offset.symm.trans hcomment'.offset)
  rw [hof.isNative]
  exact congrArg Java.MethodHeader.isNative (hm'.header_eq hm)

/-- Whatever the tree of a source is, a block belongs to a method and is native if the text of the
modifiers of this method has the word: as a keyword set off by white space, or as a word in a
comment or a literal. If the word occurs in them as a modifier set off by white space only, this is
whether it is one. -/
theorem SourceUnit.blocks_native {source : String} {root : Java.Node}
    (htree : root.IsTreeOf source) (hspelled : Java.AreSpelled root.lexemes) (path : Path)
    {b : Block} (hb : b ∈ (ofTree path source root).blocks) :
    (∃ m : Java.MethodDeclaration, m.Owns root b)
      ∧ ∀ m : Java.MethodDeclaration, m.Owns root b →
        (b.isNative ↔ Java.HasWord "native".toList (Java.lexemesOf m.modifiers))
          ∧ (m.IsPlain "native" → (b.isNative ↔ m.HasModifier "native")) := by
  constructor
  · obtain ⟨x, m, hx, hcomment, hm, -⟩ := exists_leaf_of_mem_blocks hb
    exact ⟨m, x, hx, hcomment, hm⟩
  · intro m hm
    have hmodifiers : Java.AreSpelled (Java.lexemesOf m.modifiers) := by
      obtain ⟨x, hx, -, hbelongs⟩ := hm
      exact hspelled.mono (Java.MethodDeclaration.modifiers_isInfix (hbelongs.contains hx))
    have hnative : b.isNative ↔ Java.HasWord "native".toList (Java.lexemesOf m.modifiers) := by
      rw [isNative_of_owns htree hspelled hb hm, m.nativeModifiers_iff]
      exact Java.mem_words_sourceText_iff hmodifiers
        ⟨by simp, by simp [Java.isWordChar, Char.isAlphanum]⟩
    exact ⟨hnative, fun hplain => hnative.trans hplain.hasWord_iff⟩

/-! ## A keyword that white space does not set off -/

/-- Two native methods, of which one has a comment for the white space between its modifiers. -/
def gluedSource : String :=
  "class A\x7bpublic/**/native void f()/*-\x7b\x7d-*/;native void g()/*-\x7b\x7d-*/;\x7d"

def gluedBlock : Block :=
  ⟨"A", "f", false, ["A"], 33, 8, "", 37, true⟩

def plainBlock : Block :=
  ⟨"A", "g", true, ["A"], 57, 8, "", 61, true⟩

namespace Java

def wordNode (offset : Nat) (blank text : String) : Node :=
  .leaf ⟨.word, offset, blank.toList, text.toList⟩

def markNode (offset : Nat) (c : Char) : Node :=
  .leaf ⟨.mark, offset, [], [c]⟩

def emptyBlock (offset : Nat) : Lexeme :=
  ⟨.blockComment, offset, [], Block.opening ++ Block.closing⟩

/-- The parts of ` void name()` with an empty block, after the modifiers. -/
def methodNodes (offset : Nat) (name : String) (modifiers : List Node) : List Node :=
  [.branch .modifiers modifiers, .branch .other [wordNode offset " " "void"],
    wordNode (offset + 5) " " name,
    .branch .other [markNode (offset + 6) '(', markNode (offset + 7) ')'],
    .leaf (emptyBlock (offset + 8)), markNode (offset + 16) ';']

def gluedNodes : List Node :=
  methodNodes 25 "f"
    [wordNode 8 "" "public", .leaf ⟨.blockComment, 14, [], "/**/".toList⟩, wordNode 18 "" "native"]

def plainNodes : List Node :=
  methodNodes 49 "g" [wordNode 42 "" "native"]

def gluedBody : Node :=
  .branch .other [markNode 7 '\x7b', .branch (.methodDeclaration "f") gluedNodes,
    .branch (.methodDeclaration "g") plainNodes, markNode 66 '\x7d']

def gluedClass : Node :=
  .branch (.typeDeclaration "A") [wordNode 0 "" "class", wordNode 6 " " "A", gluedBody]

def gluedTree : Node :=
  .branch .other [gluedClass]

/-- A method of the class that comes after the given children of its body. -/
def gluedMethod (name : String) (nodes before : List Node) : MethodDeclaration :=
  ⟨name, nodes, [⟨gluedBody, before⟩, ⟨gluedClass, [wordNode 0 "" "class", wordNode 6 " " "A"]⟩,
    ⟨gluedTree, []⟩]⟩

def keywordMethod : MethodDeclaration :=
  gluedMethod "f" gluedNodes [markNode 7 '\x7b']

def plainMethod : MethodDeclaration :=
  gluedMethod "g" plainNodes [markNode 7 '\x7b', .branch (.methodDeclaration "f") gluedNodes]

theorem owns_keywordMethod : keywordMethod.Owns gluedTree gluedBlock := by
  refine ⟨⟨emptyBlock 33, ⟨keywordMethod.node, gluedNodes.take 4⟩ :: keywordMethod.ancestors⟩,
    ?_, ⟨⟨Block.closing, rfl⟩, rfl, rfl, rfl, rfl⟩, .parent⟩
  exact Node.mem_leaves_iff.1 (List.mem_of_getElem? (i := 10) rfl)

theorem owns_plainMethod : plainMethod.Owns gluedTree plainBlock := by
  refine ⟨⟨emptyBlock 57, ⟨plainMethod.node, plainNodes.take 4⟩ :: plainMethod.ancestors⟩,
    ?_, ⟨⟨Block.closing, rfl⟩, rfl, rfl, rfl, rfl⟩, .parent⟩
  exact Node.mem_leaves_iff.1 (List.mem_of_getElem? (i := 17) rfl)

theorem isPlain_plainMethod : plainMethod.IsPlain "native" := by
  have hmodifiers : plainMethod.modifiers = [wordNode 42 "" "native"] := rfl
  have hlexemes : lexemesOf plainMethod.modifiers = [⟨.word, 42, [], "native".toList⟩] := rfl
  refine ⟨fun l hl _ => ?_, fun before l after hls _ => ?_, fun l hl hkind => ?_⟩
  · rw [hlexemes, List.mem_singleton] at hl
    rw [hl, hmodifiers]
    exact List.mem_singleton_self _
  · rw [hlexemes, eq_comm, List.append_eq_singleton_iff] at hls
    rcases hls with ⟨rfl, hls⟩ | ⟨-, hls⟩
    · cases hls
      exact ⟨fun h => absurd rfl h, nofun⟩
    · cases hls
  · rw [hlexemes, List.mem_singleton] at hl
    subst hl
    rcases hkind with hkind | hkind
    · cases hkind
    · cases hkind

end Java

theorem read_glued :
    Java.parse gluedSource = Java.gluedTree
      ∧ (SourceUnit.ofSource "A.java" gluedSource).blocks = [gluedBlock, plainBlock] := by
  decide +kernel

/-- The method is native by its modifiers, but the block says that it is not. -/
theorem SourceUnit.exists_native_modifier_not_isNative :
    ∃ b ∈ (ofSource "A.java" gluedSource).blocks, ∃ m : Java.MethodDeclaration,
      m.Owns (Java.parse gluedSource) b ∧ m.HasModifier "native" ∧ b.isNative = false := by
  obtain ⟨hparse, hblocks⟩ := read_glued
  rw [hparse, hblocks]
  refine ⟨gluedBlock, by simp, Java.keywordMethod, Java.owns_keywordMethod, ?_, rfl⟩
  exact ⟨_, List.mem_cons_of_mem _ (List.mem_cons_of_mem _ (List.mem_cons_self ..)), rfl⟩

/-- The other method is native by its modifiers, and its block says so. -/
theorem SourceUnit.blocks_native_plain :
    (Java.parse gluedSource).IsTreeOf gluedSource
      ∧ Java.AreSpelled (Java.parse gluedSource).lexemes
      ∧ plainBlock ∈ (ofSource "A.java" gluedSource).blocks
      ∧ ∃ m : Java.MethodDeclaration, m.Owns (Java.parse gluedSource) plainBlock
        ∧ m.IsPlain "native" ∧ m.HasModifier "native" ∧ plainBlock.isNative = true := by
  obtain ⟨hparse, hblocks⟩ := read_glued
  have htree := Java.isTreeOf_parse gluedSource
  have hspelled := Java.areSpelled_parse gluedSource
  have hmem : plainBlock ∈ (ofSource "A.java" gluedSource).blocks := by
    rw [hblocks]
    exact List.mem_cons_of_mem _ (List.mem_singleton_self _)
  have howns : Java.plainMethod.Owns (Java.parse gluedSource) plainBlock := by
    rw [hparse]
    exact Java.owns_plainMethod
  obtain ⟨-, hnative⟩ := blocks_native htree hspelled "A.java" hmem
  obtain ⟨-, hplain⟩ := hnative Java.plainMethod howns
  exact ⟨htree, hspelled, hmem, Java.plainMethod, howns, Java.isPlain_plainMethod,
    (hplain Java.isPlain_plainMethod).1 rfl, rfl⟩

end Jsni
