import Jsni.Erasure.Spelling
import Jsni.Proofs.Text.Trim

/-!
# Which types spellings name

A spelling lays out a name and any number of `[]` with white space around each. The type it names is
an array of that depth, of the primitive type if the name is a keyword and else of the class of that
name. The printed form of a type is a spelling of it if the name of its class can stand in one.
-/

namespace Jsni.ErasedType

open Text

def brackets : List Char :=
  ['[', ']']

/-! ## Reading -/

/-- The type of a name. -/
def ofName (name : List Char) : ErasedType :=
  match Primitive.ofKeyword? (.ofList name) with
  | some p => primitive p
  | none   => named (.ofList name)

theorem elementSpelling?_eq_some_iff {cs element : List Char} :
    elementSpelling? cs = some element ↔ cs = element ++ brackets := by
  constructor
  · intro h
    unfold elementSpelling? at h
    split at h
    · rename_i rest heq
      cases h
      simpa [brackets] using congrArg List.reverse heq
    · cases h
  · rintro rfl
    simp [elementSpelling?, brackets]

theorem elementSpelling?_eq_none_iff {cs : List Char} :
    elementSpelling? cs = none ↔ ¬ brackets <:+ cs := by
  rw [Option.eq_none_iff_forall_ne_some]
  constructor
  · rintro h ⟨element, helement⟩
    exact h element (elementSpelling?_eq_some_iff.2 helement.symm)
  · intro h element helement
    exact h ⟨element, (elementSpelling?_eq_some_iff.1 helement).symm⟩

theorem ofSpellingChars_of_brackets {cs element : List Char} (h : trim cs = element ++ brackets) :
    ofSpellingChars cs = array (ofSpellingChars element) := by
  rw [ofSpellingChars]
  split
  · rename_i heq
    rw [elementSpelling?_eq_some_iff, h] at heq
    rw [List.append_cancel_right heq]
  · rename_i heq
    exact absurd ⟨element, h.symm⟩ (elementSpelling?_eq_none_iff.1 heq)

theorem ofSpellingChars_of_name {cs : List Char} (h : ¬ brackets <:+ trim cs) :
    ofSpellingChars cs = ofName (trim cs) := by
  rw [ofSpellingChars]
  split
  · rename_i heq
    exact absurd ⟨_, (elementSpelling?_eq_some_iff.1 heq).symm⟩ h
  · rfl

/-- White space around a spelling does not count. -/
theorem ofSpellingChars_congr {cs ds : List Char} (h : trim cs = trim ds) :
    ofSpellingChars cs = ofSpellingChars ds := by
  by_cases hbrackets : brackets <:+ trim cs
  · obtain ⟨element, helement⟩ := hbrackets
    rw [ofSpellingChars_of_brackets helement.symm,
      ofSpellingChars_of_brackets (h.symm.trans helement.symm)]
  · rw [ofSpellingChars_of_name hbrackets, ofSpellingChars_of_name (h ▸ hbrackets), h]

theorem ofSpellingChars_append {before after : List Char} (hbefore : ∀ c ∈ before, isBlank c)
    (hafter : ∀ c ∈ after, isBlank c) (cs : List Char) :
    ofSpellingChars (before ++ cs ++ after) = ofSpellingChars cs :=
  ofSpellingChars_congr (trim_append hbefore hafter cs)

theorem ofSpellingChars_append_brackets (cs : List Char) :
    ofSpellingChars (cs ++ brackets) = array (ofSpellingChars cs) := by
  -- Only white space before the text can be trimmed off, for a bracket is none.
  have htrim : trim (cs ++ brackets) = cs.dropWhile isBlank ++ brackets := by
    have hdrop : (cs ++ brackets).dropWhile isBlank = cs.dropWhile isBlank ++ brackets := by
      rw [List.dropWhile_append]
      split
      · rename_i hcs
        rw [List.isEmpty_iff.1 hcs]
        rfl
      · rfl
    rw [trim, hdrop, trimEnd_of_last]
    intro c hc
    obtain rfl : ']' = c := by simpa [brackets] using hc
    rfl
  rw [ofSpellingChars_of_brackets htrim, ofSpellingChars_congr (trim_dropWhile cs)]

/-! ## Layouts -/

/-- What can stand for the name in a spelling: neither white space nor `[]` is to be taken off. -/
structure IsBareName (name : List Char) : Prop where
  trimmed : IsTrimmed name
  not_array : ¬ brackets <:+ name

/-- The text is the name and so many `[]`, with white space before, between and after them. -/
inductive LaysOut (name : List Char) : Nat → List Char → Prop where
  | name {before after : List Char} : (∀ c ∈ before, isBlank c) → (∀ c ∈ after, isBlank c) →
      LaysOut name 0 (before ++ name ++ after)
  | array {n : Nat} {cs before after : List Char} : LaysOut name n cs →
      (∀ c ∈ before, isBlank c) → (∀ c ∈ after, isBlank c) →
        LaysOut name (n + 1) (before ++ (cs ++ brackets) ++ after)

theorem isBareName_of_forall_mem {name : List Char}
    (h : ∀ c ∈ name, isBlank c = false ∧ c ≠ ']') : IsBareName name where
  trimmed := {
    first := fun c hc => (h c (List.mem_of_mem_head? hc)).1
    last := fun c hc => (h c (List.mem_of_mem_getLast? hc)).1 }
  not_array hsuffix := (h ']' (hsuffix.subset (by simp [brackets]))).2 rfl

theorem exists_laysOut (cs : List Char) : ∃ name n, IsBareName name ∧ LaysOut name n cs := by
  obtain ⟨before, after, hcs, hbefore, hafter⟩ := exists_eq_append_trim cs
  by_cases hbrackets : brackets <:+ trim cs
  · obtain ⟨element, helement⟩ := hbrackets
    obtain ⟨name, n, hname, hlayout⟩ := exists_laysOut element
    refine ⟨name, n + 1, hname, ?_⟩
    rw [hcs, ← helement]
    exact .array hlayout hbefore hafter
  · refine ⟨trim cs, 0, ⟨isTrimmed_trim cs, hbrackets⟩, ?_⟩
    conv_rhs => rw [hcs]
    exact .name hbefore hafter
termination_by cs.length
decreasing_by
  rw [hcs, ← helement]
  simp only [List.length_append, brackets, List.length_cons]
  omega

theorem base_ofName (name : List Char) : (ofName name).base = ofName name := by
  unfold ofName
  split <;> rfl

theorem dims_ofName (name : List Char) : (ofName name).dims = 0 := by
  unfold ofName
  split <;> rfl

theorem IsBareName.ofSpellingChars_eq {name : List Char} (h : IsBareName name) :
    ofSpellingChars name = ofName name := by
  have htrim := h.trimmed.trim_eq
  rw [ofSpellingChars_of_name (htrim.symm ▸ h.not_array), htrim]

/-- The type of a spelling is the array of its name's type, as deep as it has `[]`. -/
theorem LaysOut.base_dims {name cs : List Char} {n : Nat} (h : LaysOut name n cs)
    (hname : IsBareName name) :
    (ofSpellingChars cs).base = ofName name ∧ (ofSpellingChars cs).dims = n := by
  induction h with
  | name hbefore hafter =>
    rw [ofSpellingChars_append hbefore hafter, hname.ofSpellingChars_eq]
    exact ⟨base_ofName name, dims_ofName name⟩
  | array _ hbefore hafter ih =>
    rw [ofSpellingChars_append hbefore hafter, ofSpellingChars_append_brackets, base, dims, ih.1,
      ih.2]
    exact ⟨rfl, rfl⟩

theorem ofName_eq_primitive_iff {name : List Char} {p : Primitive} :
    ofName name = primitive p ↔ name = p.keyword.toList := by
  unfold ofName
  constructor
  · intro h
    split at h
    · rename_i heq
      cases h
      rw [← Primitive.ofKeyword?_eq_some_iff.1 heq, String.toList_ofList]
    · cases h
  · rintro rfl
    rw [String.ofList_toList, Primitive.ofKeyword?_keyword]

/-! ## Printing -/

/-- The name of the class at the bottom of the type, if it has one, is read as a name of a class. -/
def HasBareName (t : ErasedType) : Prop :=
  ∀ name, t.base = .named name → IsBareName name.toList ∧ Primitive.ofKeyword? name = none

theorem hasBareName_ofName {name : List Char} (h : IsBareName name) :
    (ofName name).HasBareName := by
  intro s hs
  rw [base_ofName, ofName] at hs
  split at hs
  · cases hs
  · rename_i hnone
    cases hs
    exact ⟨by rwa [String.toList_ofList], hnone⟩

theorem hasBareName_ofSpellingChars (cs : List Char) : (ofSpellingChars cs).HasBareName := by
  obtain ⟨name, n, hname, hlayout⟩ := exists_laysOut cs
  intro s hs
  rw [(hlayout.base_dims hname).1, ← base_ofName] at hs
  exact hasBareName_ofName hname s hs

theorem isBareName_keyword (p : Primitive) : IsBareName p.keyword.toList := by
  have hall : p.keyword.toList.all (fun c => ! isBlank c && c != ']') = true := by
    cases p <;> rfl
  refine isBareName_of_forall_mem fun c hc => ?_
  simpa using List.all_eq_true.1 hall c hc

theorem HasBareName.ofSpellingChars_displayChars {t : ErasedType} (h : t.HasBareName) :
    ofSpellingChars t.displayChars = t := by
  induction t with
  | primitive p =>
    rw [displayChars, (isBareName_keyword p).ofSpellingChars_eq]
    exact ofName_eq_primitive_iff.2 rfl
  | named name =>
    obtain ⟨hbare, hnone⟩ := h name rfl
    rw [displayChars, hbare.ofSpellingChars_eq, ofName, String.ofList_toList, hnone]
  | array element ih =>
    have helement : element.HasBareName := h
    exact (ofSpellingChars_append_brackets _).trans (congrArg array (ih helement))

/-- A type is read back from its printed form just where the name of its class can be spelled. -/
theorem ofSpelling_display_iff {t : ErasedType} : ofSpelling t.display = t ↔ t.HasBareName := by
  rw [ofSpelling, display, String.toList_ofList]
  constructor
  · intro h
    rw [← h]
    exact hasBareName_ofSpellingChars _
  · exact HasBareName.ofSpellingChars_displayChars

theorem ofSpelling_append_brackets {u v w : String} (hu : ∀ c ∈ u.toList, isBlank c)
    (hv : ∀ c ∈ v.toList, isBlank c) (hw : ∀ c ∈ w.toList, isBlank c) (s : String) :
    ofSpelling (u ++ s ++ v ++ "[]" ++ w) = array (ofSpelling s) := by
  have hlayout : (u ++ s ++ v ++ "[]" ++ w).toList
      = [] ++ (u.toList ++ s.toList ++ v.toList ++ brackets) ++ w.toList := by
    simp [brackets]
  rw [ofSpelling, hlayout, ofSpellingChars_append (by simp) hw, ofSpellingChars_append_brackets,
    ofSpellingChars_append hu hv, ofSpelling]

end Jsni.ErasedType
