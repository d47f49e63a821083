import Jsni.Proofs.Query.Concatenation
import Jsni.Proofs.Text.Letters

/-!
# Terms read again

The terms of a query hold all of its alphanumeric characters, and nothing in a term separates
terms. So the terms, with spaces between them, are a query with the same terms.
-/

namespace Jsni.Query

open Text

/-! ## What a term may be -/

theorem isAlphanumeric_of_isQuote {c : Char} (h : isQuote c) : isAlphanumeric c = false := by
  rw [of_decide_eq_true h]
  exact isAlphanumeric_of_ascii (by decide)

/-- No white space, no quote and no alphanumeric character behind a wildcard that ends a term. -/
inductive IsUncut : List Char → Prop where
  | nil : IsUncut []
  | concat {cs : List Char} {c : Char} (hcs : IsUncut cs) (hblank : isBlank c = false)
      (hquote : isQuote c = false) (hcut : (isAlphanumeric c && endsTerm cs) = false) :
      IsUncut (cs ++ [c])

/-- The text of a term. -/
structure IsTermText (cs : List Char) : Prop where
  uncut : IsUncut cs
  alphanumeric : cs.any isAlphanumeric

theorem IsUncut.not_separator {cs : List Char} (h : IsUncut cs) :
    ∀ c ∈ cs, isBlank c = false ∧ isQuote c = false := by
  induction h with
  | nil => simp
  | concat hcs hblank hquote hcut ih =>
    intro d hd
    rcases List.mem_append.1 hd with hd | hd
    · exact ih d hd
    · rw [List.mem_singleton.1 hd]
      exact ⟨hblank, hquote⟩

/-! ## What the splitter holds -/

namespace Splitter

/-- What the terms and the pending characters are after a text is read. -/
structure Keeps (read : List Char) (terms : List Term) (pending : List Char) : Prop where
  isTermText : ∀ t ∈ terms, IsTermText t.text.toList
  isUncut : IsUncut pending
  /-- No alphanumeric character is lost, and none is there twice. -/
  filter_eq : (terms.flatMap (·.text.toList) ++ pending).filter isAlphanumeric
    = read.filter isAlphanumeric

variable {read : List Char} {terms : List Term} {pending : List Char}

theorem filter_eq_nil_of_any_eq_false {cs : List Char} (h : cs.any isAlphanumeric = false) :
    cs.filter isAlphanumeric = [] :=
  List.filter_eq_nil_iff.2 fun c hc => by simpa using List.any_eq_false.1 h c hc

theorem Keeps.flush (h : Keeps read terms pending) (quoted : Bool) (word : Nat) :
    Keeps read (terms ++ chunkTerm quoted word pending) [] := by
  unfold chunkTerm
  cases hany : pending.any isAlphanumeric with
  | true =>
    refine ⟨?_, .nil, ?_⟩
    · intro t ht
      rcases List.mem_append.1 ht with ht | ht
      · exact h.isTermText t ht
      · rw [if_pos rfl, List.mem_singleton] at ht
        rw [ht, String.toList_ofList]
        exact ⟨h.isUncut, hany⟩
    · rw [← h.filter_eq]
      simp
  | false =>
    -- The pending characters are dropped, but none of them is alphanumeric.
    refine ⟨by simpa using h.isTermText, .nil, ?_⟩
    rw [← h.filter_eq, List.filter_append, List.filter_append,
      filter_eq_nil_of_any_eq_false hany]
    simp

theorem Keeps.skip (h : Keeps read terms pending) {c : Char} (hc : isAlphanumeric c = false) :
    Keeps (read ++ [c]) terms pending :=
  ⟨h.isTermText, h.isUncut, by rw [h.filter_eq, List.filter_append]; simp [hc]⟩

theorem Keeps.push (h : Keeps read terms pending) {c : Char} (hblank : isBlank c = false)
    (hquote : isQuote c = false) (hcut : (isAlphanumeric c && endsTerm pending) = false) :
    Keeps (read ++ [c]) terms (pending ++ [c]) := by
  refine ⟨h.isTermText, h.isUncut.concat hblank hquote hcut, ?_⟩
  rw [← List.append_assoc, List.filter_append, h.filter_eq, ← List.filter_append]

/-- The state after any text is one in which nothing is lost. -/
theorem exists_foldl_step_eq_reached (total : Nat) (cs : List Char) :
    ∃ quotes terms word inWord pending,
      cs.foldl step (reached total 0 [] 0 false []) = reached total quotes terms word inWord pending
        ∧ Keeps cs terms pending := by
  -- By induction on the text from its end, since what was read so far decides the next step.
  induction cs using List.reverseRecOn with
  | nil => exact ⟨0, [], 0, false, [], rfl, by simp, .nil, rfl⟩
  | append_singleton cs c ih =>
    obtain ⟨quotes, terms, word, inWord, pending, hstate, hkeeps⟩ := ih
    have hflush := hkeeps.flush (quotedAfter total quotes) word
    rw [List.foldl_concat, hstate]
    cases hblank : isBlank c with
    | true =>
      rw [step_blank _ hblank, flush_reached, endWord_reached]
      exact ⟨_, _, _, _, _, rfl, hflush.skip (isAlphanumeric_of_isBlank hblank)⟩
    | false =>
      cases hquote : isQuote c with
      | true =>
        rw [step_quote _ hblank hquote, flush_reached, quote_reached]
        exact ⟨_, _, _, _, _, rfl, hflush.skip (isAlphanumeric_of_isQuote hquote)⟩
      | false =>
        cases hcut : isAlphanumeric c && endsTerm pending with
        | true =>
          obtain ⟨halpha, hends⟩ := Bool.and_eq_true_iff.1 hcut
          rw [step_cut _ _ _ _ _ _ hblank hquote halpha hends]
          exact ⟨_, _, _, _, _, rfl, hflush.push hblank hquote (by simp)⟩
        | false =>
          rw [step_within _ _ _ _ _ _ hblank hquote hcut]
          exact ⟨_, _, _, _, _, rfl, hkeeps.push hblank hquote hcut⟩

/-- An uncut text stays pending from its first character to its last. -/
theorem foldl_step_of_isUncut {cs : List Char} (h : IsUncut cs) (total : Nat) :
    cs.foldl step (reached total 0 [] 0 false []) = reached total 0 [] 0 (! cs.isEmpty) cs := by
  induction h with
  | nil => rfl
  | @concat cs c hcs hblank hquote hcut ih =>
    have hsome : (! (cs ++ [c]).isEmpty) = true := by simp
    rw [List.foldl_concat, ih, step_within _ _ _ _ _ _ hblank hquote hcut, hsome]

end Splitter

/-! ## Terms as queries -/

theorem keeps_termsOfChars (cs : List Char) : Splitter.Keeps cs (termsOfChars cs) [] := by
  obtain ⟨quotes, terms, word, inWord, pending, hstate, hkeeps⟩ :=
    Splitter.exists_foldl_step_eq_reached (cs.countP isQuote) cs
  rw [termsOfChars, Splitter.eq_reached_zero, hstate, Splitter.flush_reached]
  exact hkeeps.flush _ _

namespace IsTermText

variable {cs : List Char}

theorem countP_isQuote_eq_zero (h : IsTermText cs) : cs.countP isQuote = 0 :=
  Stretch.countP_isQuote_eq_zero fun c hc => (h.uncut.not_separator c hc).2

theorem termsOfChars_eq (h : IsTermText cs) : termsOfChars cs = [⟨.ofList cs, false, 0⟩] := by
  rw [termsOfChars, Splitter.eq_reached_zero, Splitter.foldl_step_of_isUncut h.uncut,
    Splitter.flush_reached, h.countP_isQuote_eq_zero, chunkTerm, if_pos h.alphanumeric]
  rfl

theorem words_eq (h : IsTermText cs) : words cs = [cs] := by
  have hne : cs ≠ [] := by
    rintro rfl
    cases h.alphanumeric
  have hword : IsWordBetween [] cs [] :=
    ⟨hne, fun c hc => (h.uncut.not_separator c hc).1, by simp, by simp⟩
  have hwords := words_append hword
  rwa [List.append_nil, words_nil] at hwords

end IsTermText

theorem map_shift_mapIdx (words : Nat) (ts : List Term) :
    (ts.mapIdx fun i t => (⟨t.text, false, i⟩ : Term)).map (Term.shift words)
      = ts.mapIdx fun i t => ⟨t.text, false, i + words⟩ := by
  apply List.ext_getElem
  · simp
  · simp [Term.shift]

/-- The texts of terms, with spaces between them, have the same terms, each in a word of its
own. -/
theorem termsOfChars_intercalate {ts : List Term} (h : ∀ t ∈ ts, IsTermText t.text.toList) :
    termsOfChars ([' '].intercalate (ts.map (·.text.toList)))
      = ts.mapIdx fun i t => ⟨t.text, false, i⟩ := by
  induction ts with
  | nil => rfl
  | cons t ts ih =>
    obtain ⟨ht, h⟩ := List.forall_mem_cons.1 h
    have hfirst := ht.termsOfChars_eq
    rw [String.ofList_toList] at hfirst
    cases ts with
    | nil => simpa using hfirst
    | cons u ts =>
      have happend := @termsOfChars_append_cons t.text.toList []
        ([' '].intercalate ((u :: ts).map (·.text.toList))) ' '
        (by rw [ht.countP_isQuote_eq_zero]) rfl (by simp)
      rw [hfirst, ih h, ht.words_eq, map_shift_mapIdx] at happend
      simpa [List.mapIdx_cons] using happend

/-- The texts of terms, with spaces between them, are a query with the same terms, none quoted and
each in a word of its own. Together they hold the alphanumeric characters of the query. -/
theorem terms_intercalate (query : String) :
    terms (" ".intercalate ((terms query).map Term.text))
        = (terms query).mapIdx (fun i t => ⟨t.text, false, i⟩)
      ∧ ((terms query).flatMap (·.text.toList)).filter isAlphanumeric
        = query.toList.filter isAlphanumeric := by
  have hkeeps := keeps_termsOfChars query.toList
  refine ⟨?_, ?_⟩
  · have hterms := termsOfChars_intercalate hkeeps.isTermText
    have hspace : " ".toList = [' '] := rfl
    rwa [← Function.comp_def String.toList, ← List.map_map, ← hspace,
      ← String.toList_intercalate] at hterms
  · have hfilter := hkeeps.filter_eq
    rwa [List.append_nil] at hfilter

end Jsni.Query
