import Jsni.Text.Blank
import Mathlib.Data.List.Basic
import Mathlib.Data.List.DropRight
import Mathlib.Data.List.TakeWhile

/-!
# The words of a text

A word stands in a text between white space or the ends of the text, and has none inside.
-/

namespace Jsni.Text

/-- `word` is a word of the text in which it stands between `before` and `after`. -/
structure IsWordBetween (before word after : List Char) : Prop where
  ne_nil : word ≠ []
  not_blank : ∀ c ∈ word, isBlank c = false
  before : ∀ c ∈ before.getLast?, isBlank c
  after : ∀ c ∈ after.head?, isBlank c

/-! ## Equations -/

theorem not_isBlank_of_dropWhile {c : Char} {cs rest : List Char}
    (h : cs.dropWhile isBlank = c :: rest) : isBlank c = false := by
  have hhead := List.head?_dropWhile_not isBlank cs
  rw [h] at hhead
  simpa using hhead

theorem words_nil : words [] = [] := by
  rw [words]
  rfl

theorem words_dropWhile (cs : List Char) : words (cs.dropWhile isBlank) = words cs := by
  rw [words, words, List.dropWhile_idempotent]

theorem words_append_of_blank {blank : List Char} (h : ∀ c ∈ blank, isBlank c)
    (cs : List Char) : words (blank ++ cs) = words cs := by
  rw [← words_dropWhile, List.dropWhile_append_of_pos h, words_dropWhile]

theorem words_eq_nil {cs : List Char} (h : ∀ c ∈ cs, isBlank c) : words cs = [] := by
  have hwords := words_append_of_blank h []
  rwa [List.append_nil, words_nil] at hwords

theorem words_append {word after : List Char} (h : IsWordBetween [] word after) :
    words (word ++ after) = word :: words after := by
  obtain ⟨c, rest, rfl⟩ := List.exists_cons_of_ne_nil h.ne_nil
  obtain ⟨hc, hrest⟩ := List.forall_mem_cons.1 h.not_blank
  have hnot : ∀ d ∈ rest, (! isBlank d) = true := fun d hd => by simp [hrest d hd]
  have hafter : after.takeWhile (! isBlank ·) = [] ∧ after.dropWhile (! isBlank ·) = after := by
    cases after with
    | nil => simp
    | cons d after => simp [h.after d rfl]
  have hdrop : (c :: rest ++ after).dropWhile isBlank = c :: (rest ++ after) :=
    List.dropWhile_cons_of_neg (by simp [hc])
  rw [words]
  split
  · simp_all
  · rename_i heq
    cases heq.symm.trans hdrop
    rw [List.takeWhile_append_of_pos hnot, List.dropWhile_append_of_pos hnot, hafter.1, hafter.2,
      List.append_nil]

theorem words_cons_of_not_isBlank {c : Char} (hc : isBlank c = false) (cs : List Char) :
    words (c :: cs) = (c :: cs.takeWhile (! isBlank ·)) :: words (cs.dropWhile (! isBlank ·)) := by
  have hdrop : (c :: cs).dropWhile isBlank = c :: cs := List.dropWhile_cons_of_neg (by simp [hc])
  rw [words]
  split
  · simp_all
  · rename_i heq
    cases heq.symm.trans hdrop
    rfl

theorem words_cons_of_isBlank {c : Char} (hc : isBlank c) (cs : List Char) :
    words (c :: cs) = words cs :=
  @words_append_of_blank [c] (by simpa using hc) cs

/-! ## Induction -/

/-- A text is blank or begins, after white space, with a word. -/
theorem blank_or_exists_word (cs : List Char) :
    (∀ c ∈ cs, isBlank c) ∨ ∃ blank word rest, cs = blank ++ (word ++ rest)
      ∧ (∀ c ∈ blank, isBlank c) ∧ IsWordBetween [] word rest := by
  cases h : cs.dropWhile isBlank with
  | nil => exact .inl (by simpa using h)
  | cons c rest =>
    have hc := not_isBlank_of_dropWhile h
    refine .inr ⟨cs.takeWhile isBlank, c :: rest.takeWhile (! isBlank ·),
      rest.dropWhile (! isBlank ·), ?_, fun d hd => List.mem_takeWhile_imp hd,
      List.cons_ne_nil _ _, ?_, by simp, ?_⟩
    · rw [List.cons_append, List.takeWhile_append_dropWhile, ← h, List.takeWhile_append_dropWhile]
    · exact List.forall_mem_cons.2 ⟨hc, fun d hd => by simpa using List.mem_takeWhile_imp hd⟩
    · intro d hd
      have hhead := List.head?_dropWhile_not (! isBlank ·) rest
      rw [hd] at hhead
      simpa using hhead

/-- Induction over the words of a text, from the last one back to the first. -/
theorem words_induction {motive : List Char → Prop}
    (blank : ∀ cs, (∀ c ∈ cs, isBlank c) → motive cs)
    (word : ∀ blank word rest, (∀ c ∈ blank, isBlank c) → IsWordBetween [] word rest →
      motive rest → motive (blank ++ (word ++ rest)))
    (cs : List Char) : motive cs := by
  rcases blank_or_exists_word cs with h | ⟨spaces, first, rest, hcs, hspaces, hfirst⟩
  · exact blank cs h
  · have hpos := List.length_pos_of_ne_nil hfirst.ne_nil
    rw [hcs]
    exact word spaces first rest hspaces hfirst (words_induction blank word rest)
termination_by cs.length
decreasing_by
  rw [hcs]
  simp only [List.length_append]
  omega

/-! ## What the words are -/

/-- White space separates words. -/
theorem words_append_cons {c : Char} (hc : isBlank c) (cs ds : List Char) :
    words (cs ++ c :: ds) = words cs ++ words ds := by
  have hspace : words (c :: ds) = words ds :=
    @words_append_of_blank [c] (by simpa using hc) ds
  induction cs using words_induction with
  | blank cs h =>
    rw [words_append_of_blank h, hspace, words_eq_nil h, List.nil_append]
  | word blank word rest hblank hword ih =>
    have hbetween : IsWordBetween [] word (rest ++ c :: ds) := by
      refine ⟨hword.ne_nil, hword.not_blank, hword.before, ?_⟩
      cases rest with
      | nil => simpa using hc
      | cons d rest => simpa using hword.after
    rw [List.append_assoc, List.append_assoc, words_append_of_blank hblank,
      words_append hbetween, ih, words_append_of_blank hblank, words_append hword,
      List.cons_append]

theorem mem_words_of_between {before word after : List Char}
    (h : IsWordBetween before word after) : word ∈ words (before ++ (word ++ after)) := by
  have hfirst : word ∈ words (word ++ after) := by
    rw [words_append ⟨h.ne_nil, h.not_blank, by simp, h.after⟩]
    exact List.mem_cons_self ..
  rcases List.eq_nil_or_concat' before with rfl | ⟨init, c, rfl⟩
  · exact hfirst
  · rw [List.append_assoc, List.singleton_append, words_append_cons (h.before c (by simp))]
    exact List.mem_append_right _ hfirst

theorem mem_words_iff {word cs : List Char} :
    word ∈ words cs
      ↔ ∃ before after, cs = before ++ (word ++ after) ∧ IsWordBetween before word after := by
  constructor
  · intro h
    induction cs using words_induction with
    | blank cs hcs =>
      rw [words_eq_nil hcs] at h
      cases h
    | word blank first rest hblank hfirst ih =>
      rw [words_append_of_blank hblank, words_append hfirst] at h
      rcases List.mem_cons.1 h with rfl | h
      · refine ⟨blank, rest, rfl, hfirst.ne_nil, hfirst.not_blank, ?_, hfirst.after⟩
        exact fun c hc => hblank c (List.mem_of_getLast? hc)
      · obtain ⟨before, after, rfl, hword⟩ := ih h
        refine ⟨blank ++ (first ++ before), after, by simp, hword.ne_nil, hword.not_blank, ?_,
          hword.after⟩
        -- After the first word stands white space, so the text before the other is not empty.
        have hne : before ≠ [] := by
          rintro rfl
          obtain ⟨c, _, rfl⟩ := List.exists_cons_of_ne_nil hword.ne_nil
          have hblank : isBlank c := hfirst.after c rfl
          rw [hword.not_blank c (List.mem_cons_self ..)] at hblank
          cases hblank
        rw [← List.append_assoc, List.getLast?_append_of_ne_nil _ hne]
        exact hword.before
  · rintro ⟨before, after, rfl, h⟩
    exact mem_words_of_between h

end Jsni.Text
