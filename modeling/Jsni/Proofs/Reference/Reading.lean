import Jsni.Proofs.Reference.Grammar
import Jsni.Reference.Token

/-!
# What stands after an `@`

`Reading.Fits` says of each form of reference, finished or not, what it is made of and what may
come after it. Readings that fit are exactly those that `readReference` finds, and it finds one
unless neither an identifier nor `::` comes next.
-/

namespace Jsni

open Text

/-- `r.Fits rest` if `r` is the longest reading of its own text with `rest` after it. -/
inductive Reading.Fits : Reading → List Char → Prop where
  | classOnly {n rest : List Char} :
    IsQualifiedName n → ¬ ContinuesName rest → ¬ [':', ':'] <+: rest → Fits (.classOnly n) rest
  | field {n m rest : List Char} :
    IsQualifiedName n → IsIdentifier m → m ≠ constructorName → ¬ ContinuesIdentifier rest →
    ¬ ['('] <+: rest → Fits (.field n m) rest
  | call {n m signature rest : List Char} :
    IsQualifiedName n → IsIdentifier m → IsBalanced signature → Fits (.call n m signature) rest
  | colons {rest : List Char} :
    ¬ BeginsIdentifier rest → Fits (.malformed .emptyClassName [':', ':']) rest
  | colonsMember {m rest : List Char} :
    IsIdentifier m → ¬ ContinuesIdentifier rest →
    Fits (.malformed .emptyClassName (':' :: ':' :: m)) rest
  | missingMember {n rest : List Char} :
    IsQualifiedName n → ¬ BeginsIdentifier rest →
    Fits (.malformed .missingMemberName (n ++ [':', ':'])) rest
  | missingSignature {n rest : List Char} :
    IsQualifiedName n → ¬ ContinuesIdentifier rest → ¬ ['('] <+: rest →
    Fits (.malformed .missingConstructorSignature (n ++ ':' :: ':' :: constructorName)) rest
  | unbalanced {n m rest : List Char} :
    IsQualifiedName n → IsIdentifier m → StaysOpen 0 rest →
    Fits (.malformed .unbalancedParentheses (n ++ ':' :: ':' :: m ++ ['('])) rest

theorem not_continuesName_colon (cs : List Char) : ¬ ContinuesName (':' :: cs) := by
  rintro (hpart | ⟨ds, hds, -⟩)
  · exact not_continues_mark (by simp) cs hpart
  · cases hds

theorem not_begins_colon (cs : List Char) : ¬ BeginsIdentifier (':' :: cs) :=
  fun h => not_continues_mark (by simp) cs h.continues

/-! ## Members -/

theorem readMember_of_not_begins (n : List Char) {cs : List Char} (h : ¬ BeginsIdentifier cs) :
    readMember n cs = (.malformed .missingMemberName (n ++ [':', ':']), cs) := by
  rw [readMember, spanIdentifier_of_not_begins h]

theorem readMember_paren (n : List Char) {m : List Char} (hm : IsIdentifier m) (cs : List Char) :
    readMember n (m ++ '(' :: cs)
      = match spanClosing 0 cs with
        | some (signature, rest) => (.call n m signature, rest)
        | none                   =>
          (.malformed .unbalancedParentheses (n ++ ':' :: ':' :: m ++ ['(']), cs) := by
  have hparen : ¬ ContinuesIdentifier ('(' :: cs) := not_continues_mark (by simp) cs
  have hspan := spanIdentifier_append_of_isIdentifier hm hparen
  -- The match on the span reduces once the name is seen not to be empty.
  obtain ⟨c, m, rfl⟩ := List.exists_cons_of_ne_nil hm.ne_nil
  rw [readMember, hspan]
  rfl

theorem readMember_of_not_paren (n : List Char) {m rest : List Char} (hm : IsIdentifier m)
    (hrest : ¬ ContinuesIdentifier rest) (hparen : ¬ ['('] <+: rest) :
    readMember n (m ++ rest)
      = if m = Reading.constructorName then
          (.malformed .missingConstructorSignature (n ++ ':' :: ':' :: m), rest)
        else (.field n m, rest) := by
  have hspan := spanIdentifier_append_of_isIdentifier hm hrest
  obtain ⟨c, m, rfl⟩ := List.exists_cons_of_ne_nil hm.ne_nil
  rw [readMember, hspan]
  split
  · simp_all
  · simp_all
  · simp_all

theorem fits_readMember {n : List Char} (hn : IsQualifiedName n) (cs : List Char) :
    (readMember n cs).1.Fits (readMember n cs).2 := by
  rcases spanIdentifier_cases cs with ⟨hnot, -⟩ | ⟨m, rest, rfl, hm, hrest, -⟩
  · rw [readMember_of_not_begins n hnot]
    exact .missingMember hn hnot
  · -- With a parenthesis it is a call or unbalanced, else a field or a constructor without one.
    by_cases hparen : ['('] <+: rest
    · obtain ⟨cs, rfl⟩ := hparen
      rw [List.singleton_append, readMember_paren n hm]
      cases hclose : spanClosing 0 cs with
      | none => exact .unbalanced hn hm (spanClosing_eq_none_iff.1 hclose)
      | some found =>
        obtain ⟨rfl, hbalanced⟩ := spanClosing_zero_eq_some_iff.1 hclose
        exact .call hn hm hbalanced
    · rw [readMember_of_not_paren n hm hrest hparen]
      split
      · rename_i hnew
        exact hnew ▸ .missingSignature hn hrest hparen
      · rename_i hnew
        exact .field hn hm hnew hrest hparen

/-! ## References -/

theorem readReference_colons (cs : List Char) :
    readReference (':' :: ':' :: cs)
      = some (.malformed .emptyClassName (':' :: ':' :: (spanIdentifier cs).1),
          (spanIdentifier cs).2) := by
  rw [readReference, spanQualifiedName_of_not_begins (not_begins_colon _)]
  rfl

theorem readReference_of_not_begins {cs : List Char} (h : ¬ BeginsIdentifier cs)
    (hcolons : ¬ [':', ':'] <+: cs) : readReference cs = none := by
  rw [readReference, spanQualifiedName_of_not_begins h]
  split <;> simp_all

theorem readReference_member {n : List Char} (hn : IsQualifiedName n) (cs : List Char) :
    readReference (n ++ ':' :: ':' :: cs) = some (readMember n cs) := by
  have hspan := spanQualifiedName_append_of_isQualifiedName hn (not_continuesName_colon (':' :: cs))
  obtain ⟨c, n, rfl⟩ := List.exists_cons_of_ne_nil hn.ne_nil
  rw [readReference, hspan]
  rfl

theorem readReference_classOnly {n rest : List Char} (hn : IsQualifiedName n)
    (hrest : ¬ ContinuesName rest) (hcolons : ¬ [':', ':'] <+: rest) :
    readReference (n ++ rest) = some (.classOnly n, rest) := by
  have hspan := spanQualifiedName_append_of_isQualifiedName hn hrest
  obtain ⟨c, n, rfl⟩ := List.exists_cons_of_ne_nil hn.ne_nil
  rw [readReference, hspan]
  split <;> simp_all

theorem fits_of_readReference {cs rest : List Char} {r : Reading}
    (h : readReference cs = some (r, rest)) : r.Fits rest := by
  rcases spanQualifiedName_cases cs with ⟨hnot, -⟩ | ⟨n, after, rfl, hn, hafter, -⟩
  · by_cases hcolons : [':', ':'] <+: cs
    · obtain ⟨ds, rfl⟩ := hcolons
      change readReference (':' :: ':' :: ds) = _ at h
      rw [readReference_colons] at h
      cases h
      rcases spanIdentifier_cases ds with ⟨hbegin, hspan⟩ | ⟨m, rest, -, hm, hrest, hspan⟩
      · rw [hspan]
        exact .colons hbegin
      · rw [hspan]
        exact .colonsMember hm hrest
    · rw [readReference_of_not_begins hnot hcolons] at h
      cases h
  · by_cases hcolons : [':', ':'] <+: after
    · obtain ⟨ds, rfl⟩ := hcolons
      change readReference (n ++ ':' :: ':' :: ds) = _ at h
      rw [readReference_member hn] at h
      have hfits := fits_readMember hn ds
      rw [Option.some.inj h] at hfits
      exact hfits
    · rw [readReference_classOnly hn hafter hcolons] at h
      cases h
      exact .classOnly hn hafter hcolons

theorem readReference_of_fits {r : Reading} {rest : List Char} (h : r.Fits rest) :
    readReference (r.chars ++ rest) = some (r, rest) := by
  cases h with
  | classOnly hn hrest hcolons => exact readReference_classOnly hn hrest hcolons
  | field hn hm hnew hrest hparen =>
    simp [Reading.chars, readReference_member hn, readMember_of_not_paren _ hm hrest hparen, hnew]
  | call hn hm hbalanced =>
    have hclose := spanClosing_append rest hbalanced.total hbalanced.staysOpen
    simp [Reading.chars, readReference_member hn, readMember_paren _ hm, hclose]
  | colons hbegin =>
    have hspan := spanIdentifier_of_not_begins hbegin
    simp [Reading.chars, readReference_colons, hspan]
  | colonsMember hm hrest =>
    have hspan := spanIdentifier_append_of_isIdentifier hm hrest
    simp [Reading.chars, readReference_colons, hspan]
  | missingMember hn hbegin =>
    simp [Reading.chars, readReference_member hn, readMember_of_not_begins _ hbegin]
  | missingSignature hn hrest hparen =>
    have hnew : IsIdentifier Reading.constructorName := by decide
    simp [Reading.chars, readReference_member hn, readMember_of_not_paren _ hnew hrest hparen]
  | unbalanced hn hm hopen =>
    have hclose := spanClosing_eq_none_iff.2 hopen
    simp [Reading.chars, readReference_member hn, readMember_paren _ hm, hclose]

theorem readReference_eq_some_iff {cs rest : List Char} {r : Reading} :
    readReference cs = some (r, rest) ↔ cs = r.chars ++ rest ∧ r.Fits rest := by
  constructor
  · intro h
    exact ⟨(readReference_append h).symm, fits_of_readReference h⟩
  · rintro ⟨rfl, hfits⟩
    exact readReference_of_fits hfits

theorem readReference_eq_none_iff {cs : List Char} :
    readReference cs = none ↔ ¬ BeginsIdentifier cs ∧ ¬ [':', ':'] <+: cs := by
  constructor
  · intro h
    refine ⟨fun hbegin => ?_, fun hcolons => ?_⟩
    · rcases spanQualifiedName_cases cs with ⟨hnot, -⟩ | ⟨n, after, rfl, hn, hafter, -⟩
      · exact hnot hbegin
      · by_cases hcolons : [':', ':'] <+: after
        · obtain ⟨ds, rfl⟩ := hcolons
          cases (readReference_member hn ds).symm.trans h
        · cases (readReference_classOnly hn hafter hcolons).symm.trans h
    · obtain ⟨ds, rfl⟩ := hcolons
      cases (readReference_colons ds).symm.trans h
  · rintro ⟨hbegin, hcolons⟩
    exact readReference_of_not_begins hbegin hcolons

end Jsni
