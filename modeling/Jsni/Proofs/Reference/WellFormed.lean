import Jsni.Proofs.Reference.Reading

/-!
# Well-formed references

The parts of a well-formed reference go together as its kind asks. Readings that are no malformed
ones give well-formed references, and each well-formed reference is read from its own text unless
what comes after it extends it.
-/

namespace Jsni

open Text

/-! ## References -/

theorem toList_eq_constructorName_iff {s : String} :
    s.toList = Reading.constructorName ↔ s = "new" :=
  @String.toList_inj s "new"

namespace Reference

structure IsWellFormed (r : Reference) : Prop where
  className : IsQualifiedName r.className.toList
  member : if r.kind = .classOnly then r.memberName = "" else IsIdentifier r.memberName.toList
  constructor_iff : r.kind = .constructor ↔ r.memberName = "new"
  signature : IsBalanced r.signature.toList
  signature_eq_empty : r.hasSignature = false → r.signature = ""

/-- Whether the reference ends where it is followed by `rest`. -/
def EndsBefore (r : Reference) (rest : List Char) : Prop :=
  match r.kind with
  | .classOnly            => ¬ ContinuesName rest ∧ ¬ [':', ':'] <+: rest
  | .field                => ¬ ContinuesIdentifier rest ∧ ¬ ['('] <+: rest
  | .method | .constructor => True

/-- What is read of the reference where it stands. -/
def reading (r : Reference) : Reading :=
  match r.kind with
  | .classOnly            => .classOnly r.className.toList
  | .field                => .field r.className.toList r.memberName.toList
  | .method | .constructor =>
    .call r.className.toList r.memberName.toList r.signature.toList

theorem toList_text (r : Reference) : r.text.toList = '@' :: r.reading.chars := by
  rcases r with ⟨offset, length, className, memberName, kind, signature, owner⟩
  cases kind <;> simp [text, reading, hasSignature, Reading.chars]

theorem IsWellFormed.fits {r : Reference} (hr : r.IsWellFormed) {rest : List Char}
    (hrest : r.EndsBefore rest) : r.reading.Fits rest := by
  rcases r with ⟨offset, length, className, memberName, kind, signature, owner⟩
  have hmember := hr.member
  cases kind with
  | classOnly => exact .classOnly hr.className hrest.1 hrest.2
  | field =>
    have hnew : memberName.toList ≠ Reading.constructorName := by
      intro h
      cases hr.constructor_iff.2 (toList_eq_constructorName_iff.1 h)
    exact .field hr.className hmember hnew hrest.1 hrest.2
  | method => exact .call hr.className hmember hr.signature
  | constructor => exact .call hr.className hmember hr.signature

theorem IsWellFormed.toToken_reading {r : Reference} (hr : r.IsWellFormed) (owner : String)
    (offset : Nat) :
    r.reading.toToken owner offset
      = .reference { r with offset, length := byteLength r.text.toList, owner } := by
  rw [toList_text]
  rcases r with ⟨offset, length, className, memberName, kind, signature, owner⟩
  have hmember := hr.member
  have hconstructor := hr.constructor_iff
  have hsignature := hr.signature_eq_empty
  have hnew := @toList_eq_constructorName_iff memberName
  cases kind <;> simp_all [reading, Reading.toToken, hasSignature]

/-- A character that a text begins without stands after that beginning. -/
theorem append_eq_append_cons {c : Char} {front rest before after : List Char} (hc : c ∉ front)
    (h : front ++ rest = before ++ c :: after) :
    ∃ between, before = front ++ between ∧ rest = between ++ c :: after := by
  rcases List.append_eq_append_iff.1 h with ⟨between, hbefore, hrest⟩ | ⟨between, rfl, hrest⟩
  · exact ⟨between, hbefore, hrest⟩
  · cases between with
    | nil => exact ⟨[], by simp, by simpa using hrest.symm⟩
    | cons d between =>
      obtain ⟨rfl, -⟩ := List.cons.inj hrest
      simp at hc

/-- An `@` before a last parenthesis stands in the text before that. -/
theorem at_suffix_of_append_paren {signature between after : List Char}
    (h : signature ++ [')'] = between ++ '@' :: after) :
    ∃ s, after = s ++ [')'] ∧ '@' :: s <:+ signature := by
  rcases List.eq_nil_or_concat after with rfl | ⟨s, d, rfl⟩
  · have hlast := List.append_inj_right' h rfl
    simp at hlast
  · rw [List.concat_eq_append, ← List.cons_append, ← List.append_assoc] at h
    have hlast := List.append_inj_right' h rfl
    have hinit := List.append_inj_left' h rfl
    obtain rfl : ')' = d := by simpa using hlast
    exact ⟨s, by simp, between, hinit.symm⟩

/-- The names of a reference have no `@`, so a second one stands within the signature. -/
theorem IsWellFormed.at_mem_signature {r : Reference} (hr : r.IsWellFormed)
    {before after : List Char} (h : r.text.toList = before ++ '@' :: after)
    (hbefore : before ≠ []) : ∃ s, after = s ++ [')'] ∧ '@' :: s <:+ r.signature.toList := by
  obtain ⟨c, before, rfl⟩ := List.exists_cons_of_ne_nil hbefore
  rw [toList_text, List.cons_append, List.cons.injEq] at h
  obtain ⟨-, h⟩ := h
  have hclass := hr.className.at_not_mem
  have hmember := hr.member
  rcases r with ⟨offset, length, className, memberName, kind, signature, owner⟩
  -- Methods and constructors are written alike.
  have hcall (hm : IsIdentifier memberName.toList)
      (h : className.toList ++ ':' :: ':' :: memberName.toList ++ '(' :: signature.toList ++ [')']
        = before ++ '@' :: after) :
      ∃ s, after = s ++ [')'] ∧ '@' :: s <:+ signature.toList := by
    have hfront : '@' ∉ className.toList ++ ':' :: ':' :: memberName.toList ++ ['('] := by
      simpa using ⟨hclass, hm.at_not_mem⟩
    have hsplit : (className.toList ++ ':' :: ':' :: memberName.toList ++ ['('])
        ++ (signature.toList ++ [')']) = before ++ '@' :: after := by simpa using h
    obtain ⟨between, -, hrest⟩ := append_eq_append_cons hfront hsplit
    exact at_suffix_of_append_paren hrest
  cases kind with
  | classOnly =>
    change className.toList = before ++ '@' :: after at h
    simp [h] at hclass
  | field =>
    have hnames : '@' ∉ className.toList ++ ':' :: ':' :: memberName.toList := by
      simpa using ⟨hclass, hmember.at_not_mem⟩
    change className.toList ++ ':' :: ':' :: memberName.toList = before ++ '@' :: after at h
    simp [h] at hnames
  | method => exact hcall hmember h
  | constructor => exact hcall hmember h

end Reference

/-! ## Tokens -/

namespace Reading

@[simp] theorem toToken_offset (r : Reading) (owner : String) (offset : Nat) :
    (r.toToken owner offset).offset = offset := by
  cases r <;> rfl

@[simp] theorem toToken_length (r : Reading) (owner : String) (offset : Nat) :
    (r.toToken owner offset).length = byteLength ('@' :: r.chars) := by
  cases r <;> rfl

theorem toList_text_toToken (r : Reading) (owner : String) (offset : Nat) :
    (r.toToken owner offset).text.toList = '@' :: r.chars := by
  cases r with
  | classOnly n => simp [toToken, Token.text, Reference.text, Reference.hasSignature, chars]
  | field n m => simp [toToken, Token.text, Reference.text, Reference.hasSignature, chars]
  | call n m signature =>
    by_cases hnew : m = constructorName <;>
      simp [toToken, Token.text, Reference.text, Reference.hasSignature, chars, hnew]
  | malformed reason read => simp [toToken, Token.text, chars]

theorem isBalanced_nil : IsBalanced [] :=
  ⟨rfl, staysOpen_nil 0⟩

theorem Fits.isWellFormed {r : Reading} {rest : List Char} (h : r.Fits rest) {owner : String}
    {offset : Nat} {ref : Reference} (href : r.toToken owner offset = .reference ref) :
    ref.IsWellFormed := by
  cases h with
  | classOnly hn =>
    cases href
    exact ⟨by simpa using hn, by simp, by simp, isBalanced_nil, fun _ => rfl⟩
  | @field n m _ hn hm hnew =>
    cases href
    refine ⟨by simpa using hn, by simpa using hm, ?_, isBalanced_nil, fun _ => rfl⟩
    simpa [← toList_eq_constructorName_iff] using hnew
  | @call n m signature _ hn hm hbalanced =>
    cases href
    refine ⟨by simpa using hn, ?_, ?_, by simpa using hbalanced, ?_⟩
    · by_cases hnew : m = constructorName <;> simpa [hnew] using hm
    · by_cases hnew : m = constructorName <;> simp [hnew, ← toList_eq_constructorName_iff]
    · by_cases hnew : m = constructorName <;> simp [hnew, Reference.hasSignature]
  | colons => cases href
  | colonsMember => cases href
  | missingMember => cases href
  | missingSignature => cases href
  | unbalanced => cases href

theorem Fits.at_not_mem {reason : MalformedReason} {read rest : List Char}
    (h : (malformed reason read).Fits rest) : '@' ∉ read := by
  cases h with
  | colons => decide
  | colonsMember hm => simpa using hm.at_not_mem
  | missingMember hn => simpa using hn.at_not_mem
  | missingSignature hn => simpa [constructorName] using hn.at_not_mem
  | unbalanced hn hm => simpa using ⟨hn.at_not_mem, hm.at_not_mem⟩

theorem Fits.count_at_malformed {r : Reading} {rest : List Char} (h : r.Fits rest) {owner : String}
    {offset : Nat} {m : MalformedReference} (hm : r.toToken owner offset = .malformed m) :
    m.text.toList.count '@' = 1 := by
  cases r with
  | classOnly => cases hm
  | field => cases hm
  | call => cases hm
  | malformed reason read =>
    cases hm
    simpa [List.count_eq_zero] using h.at_not_mem

end Reading

end Jsni
