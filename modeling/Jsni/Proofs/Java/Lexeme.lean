import Jsni.Java.Lexeme
import Jsni.Proofs.Text.Slice

/-!
# Where lexemes stand

The text of each lexeme stands in the source at the offset of the lexeme.
-/

namespace Jsni.Java

open Text

theorem exists_of_mem_lex {offset : Nat} {cs : List Char} {l : Lexeme} (h : l ∈ lex offset cs) :
    ∃ before after, cs = before ++ (l.text ++ after) ∧ l.offset = offset + byteLength before := by
  fun_induction lex offset cs with
  | case1 offset cs hnone => cases h
  | case2 offset cs c rest hsome blank kind n hkind text start ih =>
    have hcs : cs = blank ++ (c :: rest.take n ++ rest.drop n) := by
      have hsplit := List.takeWhile_append_dropWhile (p := isBlank) (l := cs)
      rw [hsome] at hsplit
      simpa using hsplit.symm
    -- Before a later lexeme stand the white space, the first lexeme and what `ih` finds.
    rcases List.mem_cons.1 h with rfl | h
    · exact ⟨blank, rest.drop n, hcs, rfl⟩
    · obtain ⟨before, after, hrest, hoffset⟩ := ih h
      refine ⟨blank ++ (c :: rest.take n ++ before), after, ?_, ?_⟩
      · rw [hcs, hrest]
        simp
      · rw [hoffset]
        simp [start, text, Nat.add_assoc]

theorem offset_le_of_mem_lex {offset : Nat} {cs : List Char} {l : Lexeme}
    (h : l ∈ lex offset cs) : offset ≤ l.offset := by
  obtain ⟨before, after, -, hoffset⟩ := exists_of_mem_lex h
  omega

/-- Each lexeme ends before the next one begins. -/
theorem pairwise_lex (offset : Nat) (cs : List Char) :
    (lex offset cs).Pairwise fun l m => l.offset + byteLength l.text ≤ m.offset := by
  fun_induction lex offset cs with
  | case1 => exact .nil
  | case2 offset cs c rest hsome blank kind n hkind text start ih =>
    exact List.pairwise_cons.2 ⟨fun m hm => offset_le_of_mem_lex hm, ih⟩

theorem pairwise_lexemes (source : String) :
    (lexemes source).Pairwise fun l m => l.offset + byteLength l.text ≤ m.offset := by
  unfold lexemes
  split
  · exact .nil
  · split
    · exact pairwise_lex ..
    · exact pairwise_lex ..

/-- A byte order mark counts for offsets, so they are those in the source. -/
theorem slice?_of_mem_lexemes {source : String} {l : Lexeme} (h : l ∈ lexemes source) :
    slice? source l.offset (byteLength l.text) = some (.ofList l.text) := by
  refine slice?_eq_some_iff.2 ?_
  rw [String.toList_ofList]
  unfold lexemes at h
  split at h
  · cases h
  · rename_i c cs hsource
    rw [hsource]
    split at h
    · rename_i hmark
      obtain ⟨before, after, rfl, hoffset⟩ := exists_of_mem_lex h
      exact ⟨c :: before, after, rfl, by rw [byteLength_cons, hoffset, hmark], rfl⟩
    · obtain ⟨before, after, heq, hoffset⟩ := exists_of_mem_lex h
      exact ⟨before, after, heq, by rw [hoffset, Nat.zero_add], rfl⟩

end Jsni.Java
