import Jsni.Proofs.Reference.Grammar
import Jsni.Proofs.Text.Slice

/-!
# Where a name ends

The name at a byte of a text is the longest that stands there, and what follows does not go on it.
Where no name begins this need not be so: a dot and an identifier may stand there.
-/

namespace Jsni

open Text

/-- The byte where the name that begins at a byte ends, the same byte if none begins there. There is
no answer past the end of the text and inside a character. -/
def nameEnd (text : String) (start : Nat) : Option Nat :=
  (splitBytes start text.toList).map fun (_, cs) => start + byteLength (spanQualifiedName cs).1

/-! ## Longest names -/

namespace IsQualifiedName

variable {n : List Char}

/-- Where a name ends there no longer one ends unless something goes on the name. -/
theorem eq_nil_of_append {more : List Char} (hn : IsQualifiedName n)
    (hlonger : IsQualifiedName (n ++ more)) (hmore : ¬ ContinuesName more) : more = [] := by
  have hshort := spanQualifiedName_append_of_isQualifiedName hn hmore
  have hlong := spanQualifiedName_append_of_isQualifiedName hlonger not_continuesName_nil
  rw [List.append_nil, hshort] at hlong
  exact congrArg Prod.snd hlong

/-- A name that nothing goes on is the longest. -/
theorem longest {rest p : List Char} (hn : IsQualifiedName n) (hrest : ¬ ContinuesName rest)
    (hp : IsQualifiedName p) (hpre : p <+: n ++ rest) : p <+: n := by
  rcases List.prefix_or_prefix_of_prefix hpre (List.prefix_append ..) with hshorter | hlonger
  · exact hshorter
  · obtain ⟨more, rfl⟩ := hlonger
    obtain ⟨after, rfl⟩ := (List.prefix_append_right_inj n).1 hpre
    have hmore : ¬ ContinuesName more := fun hgoes => hrest (hgoes.append after)
    simp [hn.eq_nil_of_append hp hmore]

end IsQualifiedName

/-- The longest name at the front of a text and the rest, no name if none begins there. -/
structure SplitsName (cs name rest : List Char) : Prop where
  append : cs = name ++ rest
  isName : BeginsIdentifier cs → IsQualifiedName name
  none : ¬ BeginsIdentifier cs → name = []
  longest : ∀ p, IsQualifiedName p → p <+: cs → p <+: name

theorem exists_splitsName (cs : List Char) :
    ∃ name rest, spanQualifiedName cs = (name, rest) ∧ SplitsName cs name rest
      ∧ (name ≠ [] → ¬ ContinuesName rest) := by
  rcases spanQualifiedName_cases cs with ⟨hnot, hspan⟩ | ⟨n, rest, rfl, hn, hrest, hspan⟩
  · refine ⟨[], cs, hspan, ⟨rfl, fun h => absurd h hnot, fun _ => rfl, ?_⟩, by simp⟩
    rintro p hp ⟨after, rfl⟩
    exact absurd (hp.begins.append after) hnot
  · refine ⟨n, rest, hspan, ⟨rfl, fun _ => hn, ?_, ?_⟩, fun _ => hrest⟩
    · exact fun hnot => absurd (hn.begins.append rest) hnot
    · exact fun p hp hpre => hn.longest hrest hp hpre

/-- From any boundary of characters on, a name is followed to its end, another boundary. It is the
longest name there, and what follows goes on neither its last identifier nor, after a dot, with a
further one. If no identifier begins the end is where the name would begin. -/
theorem nameEnd_longest {text : String} {start : Nat} {before cs : List Char}
    (h : splitBytes start text.toList = some (before, cs)) :
    ∃ stop name rest, nameEnd text start = some stop ∧ spanQualifiedName cs = (name, rest)
      ∧ SplitsName cs name rest ∧ splitBytes stop text.toList = some (before ++ name, rest)
      ∧ (stop = start ↔ ¬ BeginsIdentifier cs) ∧ (start < stop → ¬ ContinuesName rest) := by
  obtain ⟨name, rest, hspan, hsplits, hstops⟩ := exists_splitsName cs
  obtain ⟨htext, hstart⟩ := splitBytes_eq_some_iff.1 h
  refine ⟨start + byteLength name, name, rest, ?_, hspan, hsplits, ?_, ?_, ?_⟩
  · simp [nameEnd, h, hspan]
  · refine splitBytes_eq_some_iff.2 ⟨?_, ?_⟩
    · rw [htext, hsplits.append, List.append_assoc]
    · rw [byteLength_append, hstart]
  · constructor
    · intro hstop hbegins
      have hpos := byteLength_pos (hsplits.isName hbegins).ne_nil
      omega
    · intro hnot
      rw [hsplits.none hnot]
      rfl
  · intro hstop
    refine hstops ?_
    rintro rfl
    simp at hstop

theorem nameEnd_longest_trailing :
    nameEnd "é@a.b..c" 3 = some 6 ∧ IsQualifiedName "a.b".toList
      ∧ splitBytes 6 "é@a.b..c".toList = some ("é@a.b".toList, "..c".toList)
      ∧ ¬ ContinuesName "..c".toList := by
  have hname : IsQualifiedName (['a'] ++ '.' :: ['b']) :=
    .dotted (by decide) (.identifier (by decide))
  have hdots : ¬ ContinuesName "..c".toList := by
    rintro (hpart | ⟨ds, hds, hbegins⟩)
    · exact not_continues_mark (c := '.') (by simp) _ hpart
    · cases hds
      exact not_continues_mark (c := '.') (by simp) _ hbegins.continues
  have hboundary : splitBytes 3 "é@a.b..c".toList = some ("é@".toList, "a.b..c".toList) := rfl
  obtain ⟨stop, name, rest, hend, hspan, -, hrest, -, hstops⟩ := nameEnd_longest hboundary
  cases (spanQualifiedName_append_of_isQualifiedName hname hdots).symm.trans hspan
  obtain rfl : 6 = stop := (splitBytes_eq_some_iff.1 hrest).2
  exact ⟨hend, hname, hrest, hstops (by decide)⟩

/-- Where no name begins a dot and an identifier can follow. -/
theorem nameEnd_leading_dot :
    ¬ ∀ (text : String) (start : Nat) (before cs : List Char),
      splitBytes start text.toList = some (before, cs) →
        ∃ stop name rest, nameEnd text start = some stop ∧ spanQualifiedName cs = (name, rest)
          ∧ SplitsName cs name rest ∧ splitBytes stop text.toList = some (before ++ name, rest)
          ∧ (start < stop → ¬ ContinuesIdentifier rest)
          ∧ ¬ ∃ ds, rest = '.' :: ds ∧ BeginsIdentifier ds := by
  intro hclaim
  obtain ⟨stop, name, rest, -, hspan, -, -, -, hdot⟩ := hclaim ".a" 0 [] ".a".toList rfl
  have hnot : ¬ BeginsIdentifier ['.', 'a'] := fun h =>
    not_continues_mark (by simp) _ h.continues
  cases (spanQualifiedName_of_not_begins hnot).symm.trans hspan
  exact hdot ⟨['a'], rfl, 'a', rfl, by decide⟩

end Jsni
