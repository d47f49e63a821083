import Jsni.Java.Tree
import Jsni.Proofs.Java.Spelling

/-!
# The text of a stretch of source

The text of some lexemes, cut at white space, has the words that stand apart as lexemes and those
inside comments and literals, and no others: none is made of the parts of several lexemes.
-/

namespace Jsni.Java

open Text

/-- Where the lexeme stands between others, white space does too. -/
structure StandsApart (before : List Lexeme) (l : Lexeme) (after : List Lexeme) : Prop where
  before : before ≠ [] → l.blank ≠ []
  after : ∀ m ∈ after.head?, m.blank ≠ []

/-- The text of the lexemes has the word: as a lexeme set off by white space, or as a word in a
comment or a literal. -/
inductive HasWord (word : List Char) (ls : List Lexeme) : Prop
  | lexeme {before : List Lexeme} {l : Lexeme} {after : List Lexeme}
      (hls : ls = before ++ l :: after) (hkind : l.kind = .word) (htext : l.text = word)
      (hapart : StandsApart before l after) : HasWord word ls
  | within {l : Lexeme} (hl : l ∈ ls) (hkind : l.isComment ∨ l.kind = .literal)
      (hword : word ∈ words l.text) : HasWord word ls

theorem words_sourceText {ls : List Lexeme} (h : ∀ l ∈ ls, l.IsSpelled) :
    words (sourceText ls) = words (ls.flatMap Lexeme.chars) := by
  cases ls with
  | nil => rfl
  | cons l ls =>
    have hblank := (h l (List.mem_cons_self ..)).blank
    rw [List.flatMap_cons, Lexeme.chars, List.append_assoc, words_append_of_blank hblank]
    rfl

theorem exists_part_of_append_eq {xs ys before rest : List α} {c : α}
    (h : xs ++ ys = before ++ c :: rest) :
    (∃ back, xs = before ++ c :: back ∧ rest = back ++ ys)
      ∨ ∃ front, before = xs ++ front ∧ ys = front ++ c :: rest := by
  rcases List.append_eq_append_iff.1 h with ⟨front, hbefore, hys⟩ | ⟨back, hxs, hrest⟩
  · exact .inr ⟨front, hbefore, hys⟩
  · cases back with
    | nil => exact .inr ⟨[], by simpa using hxs.symm, by simpa using hrest.symm⟩
    | cons d back =>
      cases hrest
      exact .inl ⟨back, hxs, rfl⟩

/-- Each character that is not white space stands in the text of a lexeme. -/
theorem exists_lexeme_of_flatMap {ls : List Lexeme} {before rest : List Char} {c : Char}
    (hls : ∀ l ∈ ls, l.IsSpelled) (hc : isBlank c = false)
    (h : ls.flatMap Lexeme.chars = before ++ c :: rest) :
    ∃ xs l ys front back, ls = xs ++ l :: ys ∧ l.text = front ++ c :: back
      ∧ before = xs.flatMap Lexeme.chars ++ l.blank ++ front
      ∧ rest = back ++ ys.flatMap Lexeme.chars := by
  induction ls generalizing before with
  | nil => simp at h
  | cons m ls ih =>
    obtain ⟨hm, hls⟩ := List.forall_mem_cons.1 hls
    rw [List.flatMap_cons] at h
    rcases exists_part_of_append_eq h with ⟨back, hchars, rfl⟩ | ⟨front, rfl, hrest⟩
    · rcases exists_part_of_append_eq hchars with ⟨blank, hblank, -⟩ | ⟨front, rfl, htext⟩
      · -- The character is not part of the white space.
        have hcontra := hm.blank c (by rw [hblank]; simp)
        rw [hc] at hcontra
        cases hcontra
      · exact ⟨[], m, ls, front, back, rfl, htext, rfl, rfl⟩
    · obtain ⟨xs, l, ys, front, back, rfl, htext, rfl, rfl⟩ := ih hls hrest
      exact ⟨m :: xs, l, ys, front, back, rfl, htext, by simp, rfl⟩

theorem eq_nil_of_last_blank {cs : List Char} (hword : ∀ c ∈ cs, isWordChar c)
    (hlast : ∀ c ∈ cs.getLast?, isBlank c) : cs = [] := by
  rcases List.eq_nil_or_concat' cs with rfl | ⟨init, c, rfl⟩
  · rfl
  · exact absurd (hword c (by simp)) (not_isWordChar_of_isBlank (hlast c (by simp)))

theorem eq_nil_of_first_blank {cs : List Char} (hword : ∀ c ∈ cs, isWordChar c)
    (hfirst : ∀ c ∈ cs.head?, isBlank c) : cs = [] := by
  cases cs with
  | nil => rfl
  | cons c cs =>
    exact absurd (hword c (List.mem_cons_self ..)) (not_isWordChar_of_isBlank (hfirst c rfl))

/-- The characters could be the text of a word lexeme. -/
structure IsWordText (word : List Char) : Prop where
  ne_nil : word ≠ []
  isWordChar : ∀ c ∈ word, isWordChar c

theorem IsWordText.exists_last {word : List Char} (h : IsWordText word) :
    ∃ c, word.getLast? = some c ∧ Java.isWordChar c := by
  obtain ⟨c, hc⟩ := Option.isSome_iff_exists.1 (List.getLast?_isSome.2 h.ne_nil)
  exact ⟨c, hc, h.isWordChar c (List.mem_of_getLast? hc)⟩

theorem AreSpelled.not_isWordChar {l : Lexeme} {ls : List Lexeme} {c d : Char} {rest : List Char}
    (h : AreSpelled (l :: ls)) (hc : l.text.getLast? = some c) (hword : isWordChar c)
    (hrest : ls.flatMap Lexeme.chars = d :: rest) : ¬ isWordChar d := by
  cases ls with
  | nil => cases hrest
  | cons m ls =>
    have hm := h.each m (by simp)
    have hfirst := congrArg List.head? hrest
    rw [List.flatMap_cons, List.head?_append_of_ne_nil _ hm.chars_ne_nil] at hfirst
    exact (List.isChain_cons_cons.1 h.chain).1.not_isWordChar hm hc hfirst hword

/-- Each word of word characters stands in the text of one lexeme. -/
theorem exists_lexeme_of_word {ls : List Lexeme} {before word after : List Char}
    (hls : AreSpelled ls) (hword : IsWordText word)
    (h : ls.flatMap Lexeme.chars = before ++ (word ++ after)) :
    ∃ xs l ys front back, ls = xs ++ l :: ys ∧ l.text = front ++ (word ++ back)
      ∧ before = xs.flatMap Lexeme.chars ++ l.blank ++ front
      ∧ after = back ++ ys.flatMap Lexeme.chars := by
  obtain ⟨c, word, rfl⟩ := List.exists_cons_of_ne_nil hword.ne_nil
  have hc := hword.isWordChar c (List.mem_cons_self ..)
  obtain ⟨xs, l, ys, front, back, rfl, htext, rfl, hafter⟩ :=
    exists_lexeme_of_flatMap hls.each (isBlank_of_isWordChar hc) h
  rcases List.append_eq_append_iff.1 hafter with ⟨tail, rfl, rfl⟩ | ⟨more, rfl, hmore⟩
  · exact ⟨xs, l, ys, front, tail, rfl, htext, rfl, rfl⟩
  · cases more with
    | nil =>
      exact ⟨xs, l, ys, front, [], rfl, by simpa using htext, rfl, by simpa using hmore.symm⟩
    | cons d more =>
      -- The rest of the word would be the beginning of the next lexeme.
      have hpart : IsWordText (c :: back) :=
        ⟨List.cons_ne_nil _ _, fun e he => hword.isWordChar e (List.mem_append_left _ he)⟩
      obtain ⟨e, he, hend⟩ := hpart.exists_last
      have hlast : l.text.getLast? = some e := by
        rw [htext, List.getLast?_append_of_ne_nil _ (List.cons_ne_nil _ _), he]
      have hrest : AreSpelled (l :: ys) := hls.mono ⟨xs, [], by simp⟩
      exact absurd (hword.isWordChar d (by simp)) (hrest.not_isWordChar hlast hend hmore)

theorem blank_before_iff {xs ys : List Lexeme} {l : Lexeme} (h : AreSpelled (xs ++ l :: ys)) :
    (∀ c ∈ (xs.flatMap Lexeme.chars ++ l.blank).getLast?, isBlank c)
      ↔ (xs ≠ [] → l.blank ≠ []) := by
  have hl := h.each l (by simp)
  by_cases hblank : l.blank = []
  · rcases List.eq_nil_or_concat' xs with rfl | ⟨init, k, rfl⟩
    · simp [hblank]
    · have hk := h.each k (by simp)
      rw [List.append_assoc] at h
      have hnot := ((List.isChain_append_cons_cons.1 h.chain).2.1).last_not_blank hk hblank
      obtain ⟨c, hc⟩ := Option.isSome_iff_exists.1 (List.getLast?_isSome.2 hk.ne_nil)
      have hlast : ((init ++ [k]).flatMap Lexeme.chars ++ l.blank).getLast? = some c := by
        rw [hblank, List.append_nil, List.flatMap_append, List.flatMap_singleton, Lexeme.chars,
          ← List.append_assoc, List.getLast?_append_of_ne_nil _ hk.ne_nil, hc]
      rw [hlast]
      simp [hblank, hnot c hc]
  · rw [List.getLast?_append_of_ne_nil _ hblank]
    exact iff_of_true (fun c hc => hl.blank c (List.mem_of_getLast? hc)) fun _ => hblank

theorem blank_after_iff {ys : List Lexeme} (h : AreSpelled ys) :
    (∀ c ∈ (ys.flatMap Lexeme.chars).head?, isBlank c) ↔ ∀ m ∈ ys.head?, m.blank ≠ [] := by
  cases ys with
  | nil => simp
  | cons m ys =>
    have hm := h.each m (List.mem_cons_self ..)
    rw [List.flatMap_cons, List.head?_append_of_ne_nil _ hm.chars_ne_nil, Lexeme.chars]
    by_cases hblank : m.blank = []
    · obtain ⟨c, text, htext⟩ := List.exists_cons_of_ne_nil hm.ne_nil
      have hnot := hm.not_blank c (by rw [htext]; rfl)
      simp [hblank, htext, hnot]
    · rw [List.head?_append_of_ne_nil _ hblank]
      simp only [List.head?_cons, Option.mem_def, Option.some.injEq, forall_eq']
      exact iff_of_true (fun c hc => hm.blank c (List.mem_of_head? hc)) hblank

variable {ls : List Lexeme} {word : List Char}

/-- All else than a word begins with a character of no word. -/
theorem Lexeme.IsSpelled.front_ne_nil {l : Lexeme} {front back : List Char} (hl : l.IsSpelled)
    (hkind : l.kind ≠ .word) (hword : IsWordText word)
    (htext : l.text = front ++ (word ++ back)) : front ≠ [] := by
  rintro rfl
  obtain ⟨c, word, rfl⟩ := List.exists_cons_of_ne_nil hword.ne_nil
  have hpunctuation := hl.punctuation hkind c (by rw [htext]; rfl)
  exact (isPunctuation_iff.1 hpunctuation).2 (hword.isWordChar c (List.mem_cons_self ..))

theorem Lexeme.IsSpelled.comment_or_literal {l : Lexeme} {front back : List Char}
    (hl : l.IsSpelled) (hkind : l.kind ≠ .word) (hword : IsWordText word)
    (htext : l.text = front ++ (word ++ back)) : l.isComment ∨ l.kind = .literal := by
  cases h : l.kind with
  | word => exact absurd h hkind
  | mark =>
    -- The word would be the second character of the mark or a later one.
    have hfront := List.length_pos_of_ne_nil (hl.front_ne_nil hkind hword htext)
    have hpos := List.length_pos_of_ne_nil hword.ne_nil
    have hlength := hl.mark h
    rw [htext, List.length_append, List.length_append] at hlength
    omega
  | literal => exact .inr rfl
  | lineComment => exact .inl (by simp [Lexeme.isComment, h])
  | blockComment => exact .inl (by simp [Lexeme.isComment, h])

theorem hasWord_of_mem_words (hls : AreSpelled ls) (hword : IsWordText word)
    (h : word ∈ words (ls.flatMap Lexeme.chars)) : HasWord word ls := by
  obtain ⟨before, after, hchars, hbetween⟩ := mem_words_iff.1 h
  obtain ⟨xs, l, ys, front, back, rfl, htext, rfl, rfl⟩ := exists_lexeme_of_word hls hword hchars
  have hl := hls.each l (by simp)
  have hfront : ∀ c ∈ front.getLast?, isBlank c :=
    fun c hc => hbetween.before c (List.mem_getLast?_append_of_mem_getLast? hc)
  have hback : ∀ c ∈ back.head?, isBlank c :=
    fun c hc => hbetween.after c (List.mem_head?_append_of_mem_head? hc)
  by_cases hkind : l.kind = .word
  · -- There is no white space in a word, so it is the whole lexeme.
    have hall := hl.word hkind
    rw [htext] at hall
    obtain rfl : front = [] := eq_nil_of_last_blank (fun c hc => hall c (by simp [hc])) hfront
    obtain rfl : back = [] := eq_nil_of_first_blank (fun c hc => hall c (by simp [hc])) hback
    refine .lexeme rfl hkind (by simpa using htext) ⟨?_, ?_⟩
    · exact (blank_before_iff hls).1 (by simpa using hbetween.before)
    · exact (blank_after_iff (hls.mono ⟨xs ++ [l], [], by simp⟩)).1 hbetween.after
  · refine .within (l := l) (by simp) (hl.comment_or_literal hkind hword htext) ?_
    exact mem_words_iff.2 ⟨front, back, htext, hbetween.ne_nil, hbetween.not_blank, hfront, hback⟩

theorem mem_words_of_standsApart {xs ys : List Lexeme} {l : Lexeme}
    (hls : AreSpelled (xs ++ l :: ys)) (hword : IsWordText l.text)
    (h : StandsApart xs l ys) : l.text ∈ words ((xs ++ l :: ys).flatMap Lexeme.chars) := by
  refine mem_words_iff.2 ⟨xs.flatMap Lexeme.chars ++ l.blank, ys.flatMap Lexeme.chars,
    by simp [Lexeme.chars], hword.ne_nil,
    fun c hc => isBlank_of_isWordChar (hword.isWordChar c hc), ?_, ?_⟩
  · exact (blank_before_iff hls).2 h.before
  · exact (blank_after_iff (hls.mono ⟨xs ++ [l], [], by simp⟩)).2 h.after

theorem mem_words_of_within {xs ys : List Lexeme} {l : Lexeme}
    (hls : AreSpelled (xs ++ l :: ys)) (hword : IsWordText word) (hkind : l.kind ≠ .word)
    (h : word ∈ words l.text) : word ∈ words ((xs ++ l :: ys).flatMap Lexeme.chars) := by
  obtain ⟨front, back, htext, hbetween⟩ := mem_words_iff.1 h
  have hfront := (hls.each l (by simp)).front_ne_nil hkind hword htext
  refine mem_words_iff.2 ⟨xs.flatMap Lexeme.chars ++ l.blank ++ front,
    back ++ ys.flatMap Lexeme.chars, by simp [Lexeme.chars, htext], hbetween.ne_nil,
    hbetween.not_blank, ?_, ?_⟩
  · rw [List.getLast?_append_of_ne_nil _ hfront]
    exact hbetween.before
  · by_cases hback : back = []
    · -- The lexeme ends with the word, and so white space follows it.
      subst hback
      apply (blank_after_iff (hls.mono ⟨xs ++ [l], [], by simp⟩)).2
      intro m hm
      obtain ⟨ys, rfl⟩ := List.head?_eq_some_iff.1 hm
      obtain ⟨c, hc, hlast⟩ := hword.exists_last
      rw [List.append_nil] at htext
      refine (List.isChain_append_cons_cons.1 hls.chain).2.1.blank_ne_nil hkind ?_ hlast
      rw [htext, List.getLast?_append_of_ne_nil _ hword.ne_nil, hc]
    · rw [List.head?_append_of_ne_nil _ hback]
      exact hbetween.after

/-- The text of some lexemes of a source has the words that its lexemes have. -/
theorem mem_words_sourceText_iff (hls : AreSpelled ls) (hword : IsWordText word) :
    word ∈ words (sourceText ls) ↔ HasWord word ls := by
  rw [words_sourceText hls.each]
  constructor
  · exact hasWord_of_mem_words hls hword
  · intro h
    cases h with
    | lexeme heq _ htext hapart =>
      subst heq htext
      exact mem_words_of_standsApart hls hword hapart
    | @within l hl hkind hmem =>
      obtain ⟨xs, ys, rfl⟩ := List.append_of_mem hl
      refine mem_words_of_within hls hword (fun h => ?_) hmem
      rcases hkind with hkind | hkind
      · simp [Lexeme.isComment, h] at hkind
      · simp [h] at hkind

end Jsni.Java
