import Jsni.Proofs.Java.Body
import Jsni.Proofs.Java.Lexeme
import Jsni.Proofs.Text.Letters
import Jsni.Proofs.Text.Word
import Mathlib.Data.List.Chain

/-!
# How lexemes are spelled

The first character of a lexeme tells words from all else, and between two lexemes stands white
space or the end of one of them, so that no word runs from one into the next.
-/

namespace Jsni.Java

open Text

/-! ## Characters -/

/-- A character that neither is white space nor goes into words. -/
def isPunctuation (c : Char) : Bool :=
  ! isBlank c && ! isWordChar c

theorem isBlank_of_isWordChar {c : Char} (h : isWordChar c) : isBlank c = false := by
  simp only [isWordChar, Bool.or_eq_true, Bool.and_eq_true, decide_eq_true_eq,
    Bool.not_eq_true'] at h
  rcases h with ((h | rfl) | rfl) | ⟨-, h⟩
  · exact isBlank_of_isAlphanum h
  · rfl
  · rfl
  · exact h

theorem not_isWordChar_of_isBlank {c : Char} (h : isBlank c) : ¬ isWordChar c := by
  intro hword
  rw [isBlank_of_isWordChar hword] at h
  cases h

theorem isPunctuation_iff {c : Char} : isPunctuation c ↔ isBlank c = false ∧ ¬ isWordChar c := by
  simp [isPunctuation]

/-! ## Ends -/

theorem take_length_takeWhile (p : α → Bool) (xs : List α) :
    xs.take (xs.takeWhile p).length = xs.takeWhile p := by
  have h : (xs.takeWhile p ++ xs.dropWhile p).take (xs.takeWhile p).length = xs.takeWhile p :=
    List.take_left ..
  rwa [List.takeWhile_append_dropWhile] at h

theorem drop_length_takeWhile (p : α → Bool) (xs : List α) :
    xs.drop (xs.takeWhile p).length = xs.dropWhile p := by
  have h : (xs.takeWhile p ++ xs.dropWhile p).drop (xs.takeWhile p).length = xs.dropWhile p :=
    List.drop_left ..
  rwa [List.takeWhile_append_dropWhile] at h

theorem getLast?_take_commentRest {cs : List Char} (h : cs.drop (commentRest cs) ≠ []) :
    (cs.take (commentRest cs)).getLast? = some '/' := by
  fun_induction commentRest cs with
  | case1 => exact absurd rfl h
  | case2 => rfl
  | case3 c cs _ ih => exact List.mem_getLast?_cons (ih h)

theorem getLast?_take_quotedRest {quote : Char} {cs : List Char}
    (h : cs.drop (quotedRest quote cs) ≠ []) :
    (cs.take (quotedRest quote cs)).getLast? = some quote := by
  fun_induction quotedRest quote cs with
  | case1 => exact absurd rfl h
  | case2 c cs ih => exact List.mem_getLast?_cons (List.mem_getLast?_cons (ih h))
  | case3 => rfl
  | case4 c cs _ _ ih => exact List.mem_getLast?_cons (ih h)

theorem getLast?_take_textBlockRest {cs : List Char} (h : cs.drop (textBlockRest cs) ≠ []) :
    (cs.take (textBlockRest cs)).getLast? = some '"' := by
  fun_induction textBlockRest cs with
  | case1 => exact absurd rfl h
  | case2 c cs ih => exact List.mem_getLast?_cons (List.mem_getLast?_cons (ih h))
  | case3 => rfl
  | case4 c cs _ _ ih => exact List.mem_getLast?_cons (ih h)

/-! ## Single lexemes -/

/-- The text is a lexeme of the kind where `rest` follows it. -/
inductive IsLexeme (rest : List Char) : LexemeKind → List Char → Prop
  | word {text : List Char} (htext : ∀ c ∈ text, isWordChar c)
      (hrest : ∀ c ∈ rest.head?, isWordChar c = false) : IsLexeme rest .word text
  | mark {c : Char} (hc : isPunctuation c) : IsLexeme rest .mark [c]
  | delimited {kind : LexemeKind} {c : Char} {text : List Char} (hword : kind ≠ .word)
      (hmark : kind ≠ .mark) (hc : isPunctuation c)
      (hrest : ∀ d ∈ rest.head?, isBlank d ∨ ∀ e ∈ (c :: text).getLast?, isPunctuation e) :
      IsLexeme rest kind (c :: text)

/-- A lexeme between delimiters ends with one, unless the source ends first. -/
theorem IsLexeme.delimited_of_getLast? {rest : List Char} {kind : LexemeKind} {c d : Char}
    {text : List Char} (hword : kind ≠ .word) (hmark : kind ≠ .mark) (hc : isPunctuation c)
    (hd : isPunctuation d) (hlast : rest ≠ [] → (c :: text).getLast? = some d) :
    IsLexeme rest kind (c :: text) := by
  refine .delimited hword hmark hc fun first hfirst => .inr ?_
  rw [hlast (by rintro rfl; cases hfirst)]
  rintro e ⟨⟩
  exact hd

theorem isLexeme_of_lexemeRest {c : Char} {cs : List Char} {kind : LexemeKind} {n : Nat}
    (hc : isBlank c = false) (h : lexemeRest c cs = (kind, n)) :
    IsLexeme (cs.drop n) kind (c :: cs.take n) := by
  unfold lexemeRest at h
  split at h
  · rename_i cs
    cases h
    -- After a line comment comes the end of the line, which is white space.
    refine .delimited nofun nofun rfl fun d hd => .inl ?_
    rw [List.drop_succ_cons, drop_length_takeWhile] at hd
    have hhead := List.head?_dropWhile_not (· ≠ '\n') cs
    rw [hd] at hhead
    obtain rfl : d = '\n' := by simpa using hhead
    rfl
  · cases h
    refine .delimited_of_getLast? nofun nofun rfl (d := '/') rfl fun hrest => ?_
    exact List.mem_getLast?_cons (List.mem_getLast?_cons (getLast?_take_commentRest hrest))
  · cases h
    refine .delimited_of_getLast? nofun nofun rfl (d := '"') rfl fun hrest => ?_
    exact List.mem_getLast?_cons (List.mem_getLast?_cons
      (List.mem_getLast?_cons (getLast?_take_textBlockRest hrest)))
  · cases h
    refine .delimited_of_getLast? nofun nofun rfl (d := '"') rfl fun hrest => ?_
    exact List.mem_getLast?_cons (getLast?_take_quotedRest hrest)
  · cases h
    refine .delimited_of_getLast? nofun nofun rfl (d := '\'') rfl fun hrest => ?_
    exact List.mem_getLast?_cons (getLast?_take_quotedRest hrest)
  · split at h
    · rename_i hword
      cases h
      rw [take_length_takeWhile, drop_length_takeWhile]
      refine .word (List.forall_mem_cons.2 ⟨hword, fun d hd => List.mem_takeWhile_imp hd⟩) ?_
      intro d hd
      have hhead := List.head?_dropWhile_not isWordChar cs
      rw [hd] at hhead
      simpa using hhead
    · rename_i hword
      cases h
      exact .mark (isPunctuation_iff.2 ⟨hc, hword⟩)

/-- A lexeme has white space before it and a text of its kind. -/
structure Lexeme.IsSpelled (l : Lexeme) : Prop where
  blank : ∀ c ∈ l.blank, isBlank c
  ne_nil : l.text ≠ []
  word : l.kind = .word → ∀ c ∈ l.text, isWordChar c
  punctuation : l.kind ≠ .word → ∀ c ∈ l.text.head?, isPunctuation c
  mark : l.kind = .mark → l.text.length = 1

theorem Lexeme.IsSpelled.not_blank {l : Lexeme} (h : l.IsSpelled) :
    ∀ c ∈ l.text.head?, isBlank c = false := by
  intro c hc
  by_cases hkind : l.kind = .word
  · exact isBlank_of_isWordChar (h.word hkind c (List.mem_of_head? hc))
  · exact (isPunctuation_iff.1 (h.punctuation hkind c hc)).1

theorem Lexeme.IsSpelled.chars_ne_nil {l : Lexeme} (h : l.IsSpelled) : l.chars ≠ [] :=
  List.append_ne_nil_of_right_ne_nil _ h.ne_nil

theorem IsLexeme.isSpelled {rest : List Char} {l : Lexeme} (hblank : ∀ c ∈ l.blank, isBlank c)
    (hne : l.text ≠ []) (h : IsLexeme rest l.kind l.text) : l.IsSpelled := by
  obtain ⟨kind, offset, blank, text⟩ := l
  cases h with
  | word htext _ => exact ⟨hblank, hne, fun _ => htext, fun h => absurd rfl h, nofun⟩
  | mark hc =>
    refine ⟨hblank, hne, nofun, fun _ d hd => ?_, fun _ => rfl⟩
    cases hd
    exact hc
  | delimited hword hmark hc _ =>
    refine ⟨hblank, hne, fun h => absurd h hword, fun _ d hd => ?_, fun h => absurd h hmark⟩
    cases hd
    exact hc

/-! ## Neighbours -/

/-- Without white space between two lexemes, the first is a word and the second begins with a
character of no word, or the first ends with such a character itself. -/
def Lexeme.Abuts (l m : Lexeme) : Prop :=
  m.blank = [] →
    if l.kind = .word then ∀ c ∈ m.text.head?, isWordChar c = false
    else ∀ c ∈ l.text.getLast?, isPunctuation c

theorem Lexeme.Abuts.last_not_blank {l m : Lexeme} (h : l.Abuts m) (hl : l.IsSpelled)
    (hblank : m.blank = []) : ∀ c ∈ l.text.getLast?, isBlank c = false := by
  intro c hc
  by_cases hkind : l.kind = .word
  · exact isBlank_of_isWordChar (hl.word hkind c (List.mem_of_getLast? hc))
  · have hpunctuation := h hblank
    rw [if_neg hkind] at hpunctuation
    exact (isPunctuation_iff.1 (hpunctuation c hc)).1

/-- A word does not run from one lexeme into the next. -/
theorem Lexeme.Abuts.not_isWordChar {l m : Lexeme} {c d : Char} (h : l.Abuts m)
    (hm : m.IsSpelled) (hc : l.text.getLast? = some c) (hd : m.chars.head? = some d)
    (hword : isWordChar c) : ¬ isWordChar d := by
  cases hblank : m.blank with
  | cons e blank =>
    rw [chars, hblank] at hd
    cases hd
    apply not_isWordChar_of_isBlank
    exact hm.blank d (by rw [hblank]; exact List.mem_cons_self ..)
  | nil =>
    rw [chars, hblank, List.nil_append] at hd
    have habuts := h hblank
    split at habuts
    · exact Bool.eq_false_iff.1 (habuts d hd)
    · exact absurd hword (isPunctuation_iff.1 (habuts c hc)).2

/-- Nothing but white space follows a word character at the end of a comment or a literal. -/
theorem Lexeme.Abuts.blank_ne_nil {l m : Lexeme} {c : Char} (h : l.Abuts m)
    (hkind : l.kind ≠ .word) (hc : l.text.getLast? = some c) (hword : isWordChar c) :
    m.blank ≠ [] := by
  intro hblank
  have hpunctuation := h hblank
  rw [if_neg hkind] at hpunctuation
  exact (isPunctuation_iff.1 (hpunctuation c hc)).2 hword

structure AreSpelled (ls : List Lexeme) : Prop where
  each : ∀ l ∈ ls, l.IsSpelled
  chain : ls.IsChain Lexeme.Abuts

theorem AreSpelled.mono {ls ms : List Lexeme} (h : AreSpelled ms) (hls : ls <:+: ms) :
    AreSpelled ls := by
  obtain ⟨before, after, rfl⟩ := hls
  exact ⟨fun l hl => h.each l (by simp [hl]), h.chain.left_of_append.right_of_append⟩

/-- Where no white space is left over, the first lexeme begins with the text. -/
theorem exists_first_of_lex {offset : Nat} {cs : List Char} {m : Lexeme}
    (h : m ∈ (lex offset cs).head?) (hblank : m.blank = []) :
    ∃ c, m.text.head? = some c ∧ cs.head? = some c ∧ isBlank c = false := by
  rw [lex] at h
  split at h
  · cases h
  · rename_i c rest hsome
    cases h
    dsimp only at hblank
    have hsplit := List.takeWhile_append_dropWhile (p := isBlank) (l := cs)
    rw [hblank, hsome, List.nil_append] at hsplit
    rw [← hsplit] at hsome ⊢
    exact ⟨c, rfl, rfl, not_isBlank_of_dropWhile hsome⟩

theorem IsLexeme.abuts {offset : Nat} {rest : List Char} {l m : Lexeme}
    (h : IsLexeme rest l.kind l.text) (hm : m ∈ (lex offset rest).head?) : l.Abuts m := by
  intro hblank
  obtain ⟨c, hfirst, hrest, hnot⟩ := exists_first_of_lex hm hblank
  obtain ⟨kind, offset, blank, text⟩ := l
  cases h with
  | word _ hword =>
    rw [if_pos rfl, hfirst, ← hrest]
    exact hword
  | mark hc =>
    rw [if_neg nofun]
    rintro d ⟨⟩
    exact hc
  | delimited hword _ _ hlast =>
    rw [if_neg hword]
    rcases hlast c hrest with hc | hlast
    · rw [hnot] at hc
      cases hc
    · exact hlast

theorem areSpelled_lex (offset : Nat) (cs : List Char) : AreSpelled (lex offset cs) := by
  fun_induction lex offset cs with
  | case1 => exact ⟨by simp, .nil⟩
  | case2 offset cs c rest hsome blank kind n hkind text start ih =>
    have hlexeme := isLexeme_of_lexemeRest (not_isBlank_of_dropWhile hsome) hkind
    constructor
    · refine List.forall_mem_cons.2 ⟨?_, ih.each⟩
      exact IsLexeme.isSpelled (fun d hd => List.mem_takeWhile_imp hd) (List.cons_ne_nil _ _)
        hlexeme
    · refine List.isChain_cons.2 ⟨fun m hm => ?_, ih.chain⟩
      exact IsLexeme.abuts hlexeme hm

theorem areSpelled_lexemes (source : String) : AreSpelled (lexemes source) := by
  unfold lexemes
  split
  · exact ⟨by simp, .nil⟩
  · split
    · exact areSpelled_lex ..
    · exact areSpelled_lex ..

theorem areSpelled_parse (source : String) : AreSpelled (parse source).lexemes :=
  lexemes_parse source ▸ areSpelled_lexemes source

end Jsni.Java
