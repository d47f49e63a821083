import Jsni.Json.Decode
import Jsni.Proofs.Computation

/-!
# What decoders yield

A property of all that a decoder makes follows from properties of the decoders it is put together
from. A record gets it from what is known after each of its members.
-/

namespace Jsni.Json.Decode

/-- Whatever the draft, what is decoded has the property. -/
def Yields (decode : Decoder α) (P : α → Prop) : Prop :=
  ∀ d a, decode d = .ok a → P a

variable {P : α → Prop} {decode : Decoder α}

theorem Yields.list (h : Yields decode P) : Yields (list decode) fun as => ∀ a ∈ as, P a := by
  intro d as hd
  unfold Decode.list at hd
  split at hd
  · obtain ⟨as', hitems, hd⟩ := bind_eq_ok_iff.1 hd
    obtain ⟨-, -, rfl⟩ := bind_pure_eq_ok_iff.1 hd
    intro a ha
    obtain ⟨_, -, hitem⟩ := exists_of_mem_forall₂ (mapM_eq_ok_iff.1 hitems) ha
    exact h _ _ hitem
  · cases hd

theorem Yields.of_once (h : Yields decode P) {name : String} {present found : Option α} {d : Draft}
    (hd : once name present decode d = .ok found) : ∀ a ∈ found, P a := by
  unfold once at hd
  cases present with
  | some a => cases hd
  | none =>
    obtain ⟨a, hdecode, rfl⟩ := map_eq_ok_iff.1 hd
    simpa using h _ _ hdecode

theorem run_nextField?_nil (decode : Decoder α) (stop : Option Flaw) :
    (nextField? decode).run ⟨[], stop⟩ = (flawless stop).map fun _ => (none, ⟨[], stop⟩) := by
  cases stop <;> rfl

theorem run_nextField?_cons (decode : Decoder α) (d : Draft) (items : List Draft)
    (stop : Option Flaw) :
    (nextField? decode).run ⟨d :: items, stop⟩
      = (decode d).map fun a => (some a, ⟨items, stop⟩) := by
  have hrun : (nextField? decode).run ⟨d :: items, stop⟩
      = (do return (some (← decode d), ⟨items, stop⟩)) := by
    simp [nextField?]
  rw [hrun]
  cases decode d <;> rfl

theorem Yields.of_nextField? (h : Yields decode P) {c c' : Cursor} {found : Option α}
    (hd : (nextField? decode).run c = .ok (found, c')) : ∀ a ∈ found, P a := by
  obtain ⟨_ | ⟨d, items⟩, stop⟩ := c
  · rw [run_nextField?_nil] at hd
    obtain ⟨-, -, heq⟩ := map_eq_ok_iff.1 hd
    cases heq
    simp
  · rw [run_nextField?_cons] at hd
    obtain ⟨a, hdecode, heq⟩ := map_eq_ok_iff.1 hd
    cases heq
    simpa using h _ _ hdecode

theorem Yields.of_nextField (h : Yields decode P) {index : Nat} {expected : String}
    {c c' : Cursor} {a : α} (hd : (nextField index expected decode).run c = .ok (a, c')) : P a := by
  unfold nextField at hd
  rw [StateT.run_bind] at hd
  obtain ⟨⟨found, _⟩, hfound, hd⟩ := bind_eq_ok_iff.1 hd
  cases found with
  | none => cases hd
  | some b =>
    cases pure_eq_ok_iff.1 hd
    exact h.of_nextField? hfound _ rfl

theorem mem_of_required {name : String} {found : Option α} {a : α}
    (h : required name found = .ok a) : a ∈ found := by
  cases found <;> cases h
  rfl

/-- What is known of a record starts with `I`, keeps it from member to member and ends with `P`. -/
theorem Yields.record {format : RecordFormat σ α} (I : σ → Prop) (start : I format.start)
    (member : ∀ {s key d s'}, I s → format.member s key d = .ok s' → I s')
    (finish : ∀ {s a}, I s → format.finish s = .ok a → P a)
    (fields : ∀ {c c' a}, format.fields.run c = .ok (a, c') → P a) :
    Yields (record format) P := by
  have hmembers {members : List (Except Flaw String × Draft)} {s s' : σ} (hs : I s)
      (h : members.foldlM (fun s m => do format.member s (← text m.1) m.2) s = .ok s') :
      I s' := by
    induction members generalizing s with
    | nil =>
      cases pure_eq_ok_iff.1 h
      exact hs
    | cons m members ih =>
      rw [List.foldlM_cons] at h
      obtain ⟨known, hm, h⟩ := bind_eq_ok_iff.1 h
      obtain ⟨key, -, hm⟩ := bind_eq_ok_iff.1 hm
      exact ih (member hs hm) h
  intro d a hd
  unfold Decode.record at hd
  split at hd
  · obtain ⟨known, hknown, hd⟩ := bind_eq_ok_iff.1 hd
    obtain ⟨-, -, hd⟩ := bind_eq_ok_iff.1 hd
    exact finish (hmembers start hknown) hd
  · obtain ⟨⟨a', cursor⟩, hfields, hd⟩ := bind_eq_ok_iff.1 hd
    obtain ⟨-, -, rfl⟩ := bind_pure_eq_ok_iff.1 hd
    exact fields hfields
  · cases hd

theorem Yields.of_decode (h : Yields decode P) {document : Document} {a : α}
    (hd : document.decode decode = .ok a) : P a := by
  obtain ⟨a', hvalue, hd⟩ := bind_eq_ok_iff.1 hd
  split at hd
  · cases hd
  · cases pure_eq_ok_iff.1 hd
    exact h _ _ hvalue

end Jsni.Json.Decode
