import Jsni.Proofs.Erasure.Descriptor
import Jsni.Proofs.Index.File
import Jsni.Proofs.Index.Lookup

/-!
# Signatures and parameter lists

A signature other than `*` fits at most one parameter list whose types were read from descriptors.
So it does in every index that comes from an index file.
-/

namespace Jsni

theorem ErasedType.IsRead.hasPlainName {t : ErasedType} (h : t.IsRead) : t.HasPlainName := by
  obtain ⟨text, hread⟩ := h
  exact (read_eq_ok_iff.1 hread).hasPlainName

/-- All parameter types that an index knows of were read from descriptors. -/
structure TypeIndex.HasReadParameters (idx : TypeIndex) : Prop where
  methods : ∀ {t name ms}, idx.methods t name = .ok ms → ∀ m ∈ ms, ∀ p ∈ m.parameters, p.IsRead
  constructors : ∀ {t ms}, idx.constructors t = .ok ms → ∀ m ∈ ms, ∀ p ∈ m.parameters, p.IsRead

namespace StaticIndex

theorem hasReadParameters {s : StaticIndex} (h : ∀ {name d}, s.find? name = some d → d.IsRead) :
    s.toIndex.HasReadParameters where
  methods {t name ms} hms m hm := by
    cases Except.ok.inj hms
    rw [methodsOf_eq] at hm
    cases hd : s.find? t.name with
    | none => simp [hd] at hm
    | some d =>
      rw [hd] at hm
      obtain ⟨decl, hdecl, rfl⟩ := List.mem_map.1 hm
      exact (h hd).methods decl (List.mem_filter.1 hdecl).1
  constructors {t ms} hms m hm := by
    cases Except.ok.inj hms
    rw [constructorsOf_eq] at hm
    cases hd : s.find? t.name with
    | none => simp [hd] at hm
    | some d =>
      rw [hd] at hm
      obtain ⟨ts, hts, rfl⟩ := List.mem_map.1 hm
      exact (h hd).constructors ts hts

end StaticIndex

theorem Method.parameters_eq_of_hasSignature {m₁ m₂ : Method} {signature : String}
    (hread₁ : ∀ p ∈ m₁.parameters, p.IsRead) (hread₂ : ∀ p ∈ m₂.parameters, p.IsRead)
    (hsignature : signature ≠ anySignature) (h₁ : m₁.hasSignature signature)
    (h₂ : m₂.hasSignature signature) : m₁.parameters = m₂.parameters := by
  have hfits₁ := (hasSignature_iff.1 h₁).resolve_left hsignature
  have hfits₂ := (hasSignature_iff.1 h₂).resolve_left hsignature
  exact ErasedType.descriptorOf_inj (fun p hp => (hread₁ p hp).hasPlainName)
    (fun p hp => (hread₂ p hp).hasPlainName) (hfits₁.trans hfits₂.symm)

/-- Types are read back from their descriptor just where their class names are plain, so no two
lists of such types share a descriptor. The parameter types of an index file are of this kind, and
in an index where all are, a signature other than `*` determines the parameters. -/
theorem readList_descriptorOf :
    (∀ ts, ErasedType.readList (descriptorOf ts) = .ok ts ↔ ∀ t ∈ ts, t.HasPlainName)
      ∧ (∀ ts us, (∀ t ∈ ts, t.HasPlainName) → (∀ t ∈ us, t.HasPlainName) →
          descriptorOf ts = descriptorOf us → ts = us)
      ∧ (∀ document s, StaticIndex.ofDocument document = .ok s → s.toIndex.HasReadParameters)
      ∧ ∀ idx : TypeIndex, idx.HasReadParameters → ∀ t name ms,
          idx.methods t name = .ok ms ∨ idx.constructors t = .ok ms → ∀ m₁ ∈ ms, ∀ m₂ ∈ ms,
            ∀ signature ≠ anySignature, m₁.hasSignature signature → m₂.hasSignature signature →
              m₁.parameters = m₂.parameters := by
  refine ⟨fun ts => ErasedType.readList_descriptorOf_iff,
    fun ts us => ErasedType.descriptorOf_inj,
    fun document s h => StaticIndex.hasReadParameters (StaticIndex.isRead_of_ofDocument h), ?_⟩
  intro idx hread t name ms hms m₁ hm₁ m₂ hm₂ signature hsignature
  have hparameters : ∀ m ∈ ms, ∀ p ∈ m.parameters, p.IsRead := by
    rcases hms with hms | hms
    · exact hread.methods hms
    · exact hread.constructors hms
  exact Method.parameters_eq_of_hasSignature (hparameters m₁ hm₁) (hparameters m₂ hm₂) hsignature

/-- A type with a method declared twice and an overload of it. -/
def overloaded : StaticIndex :=
  .ofEntries [⟨"a.A", {
    methods := [⟨"m", [.array (.named "a.B")]⟩, ⟨"m", [.primitive .int]⟩,
      ⟨"m", [.array (.named "a.B")]⟩] }⟩]

theorem isRead_overloaded {name : String} {d : TypeDecl} (h : overloaded.find? name = some d) :
    d.IsRead := by
  have hclass : ErasedType.IsRead (.array (.named "a.B")) := ⟨"[La/B;", by decide +kernel⟩
  have hint : ErasedType.IsRead (.primitive .int) := ⟨"I", by decide +kernel⟩
  have hentry := StaticIndex.exists_of_find?_ofEntries h
  simp only [List.mem_singleton, TypeEntry.mk.injEq] at hentry
  obtain ⟨-, rfl⟩ := hentry
  exact ⟨by simp, by simp [hclass, hint], by simp⟩

theorem readList_descriptorOf_overloaded :
    let m : Method := ⟨"m", "a.A", [.array (.named "a.B")]⟩
    let n : Method := ⟨"m", "a.A", [.primitive .int]⟩
    overloaded.toIndex.HasReadParameters
      ∧ overloaded.toIndex.methods ⟨"a.A", .classKind⟩ "m" = .ok [m, n, m]
      ∧ ErasedType.readList (descriptorOf m.parameters) = .ok m.parameters
      ∧ m.hasSignature "[La/B;"
      ∧ ∀ m' ∈ [m, n, m], m'.hasSignature "[La/B;" → m'.parameters = m.parameters := by
  intro m n
  obtain ⟨hround, -, -, hidentifies⟩ := readList_descriptorOf
  have hread := StaticIndex.hasReadParameters isRead_overloaded
  have hmethods : overloaded.toIndex.methods ⟨"a.A", .classKind⟩ "m" = .ok [m, n, m] := rfl
  have hm : m.hasSignature "[La/B;" := rfl
  refine ⟨hread, hmethods, ?_, hm, fun m' hm' hfits => ?_⟩
  · refine (hround _).2 fun t ht => ErasedType.IsRead.hasPlainName ?_
    exact hread.methods hmethods m (List.mem_cons_self ..) t ht
  · exact hidentifies _ hread _ _ _ (.inl hmethods) m' hm' m (List.mem_cons_self ..) "[La/B;"
      (by decide) hfits hm

end Jsni
