import Jsni.Erasure.Descriptor
import Mathlib.Data.List.Forall2

/-!
# Which texts are descriptors

A descriptor is a concatenation of units. Each unit spells one type, and no unit is the beginning
of another, so a list of types can be read off its descriptor one by one. Writing what was read
gives the text back with slashes in place of dots.
-/

namespace Jsni

namespace ErasedType

/-! ## Units -/

/-- The texts that are one unit: any number of `[`, and then a letter or a name. -/
inductive IsUnit : List Char → Prop where
  | code {c : Char} : c ∈ ['Z', 'B', 'C', 'S', 'I', 'J', 'F', 'D'] → IsUnit [c]
  | name {name : List Char} : name ≠ [] → ';' ∉ name → IsUnit ('L' :: name ++ [';'])
  | array {u : List Char} : IsUnit u → IsUnit ('[' :: u)

/-- A unit with the type that it spells. -/
inductive Spells : List Char → ErasedType → Prop where
  | primitive (p : Primitive) : Spells [p.code] (.primitive p)
  | named {name : List Char} : name ≠ [] → ';' ∉ name →
    Spells ('L' :: name ++ [';']) (.named (.ofList (name.map dotted)))
  | array {u : List Char} {t : ErasedType} : Spells u t → Spells ('[' :: u) (.array t)

theorem mem_codes_iff {c : Char} :
    c ∈ ['Z', 'B', 'C', 'S', 'I', 'J', 'F', 'D'] ↔ ∃ p : Primitive, c = p.code := by
  change c ∈ Primitive.all.map Primitive.code ↔ _
  simp [eq_comm]

theorem isUnit_iff_exists_spells {u : List Char} : IsUnit u ↔ ∃ t, Spells u t := by
  constructor
  · intro h
    induction h with
    | code hc =>
      obtain ⟨p, rfl⟩ := mem_codes_iff.1 hc
      exact ⟨_, .primitive p⟩
    | name hne hsemicolon => exact ⟨_, .named hne hsemicolon⟩
    | array _ ih =>
      obtain ⟨t, ht⟩ := ih
      exact ⟨_, .array ht⟩
  · rintro ⟨t, h⟩
    induction h with
    | primitive p => exact .code (mem_codes_iff.2 ⟨p, rfl⟩)
    | named hne hsemicolon => exact .name hne hsemicolon
    | array _ ih => exact .array ih

theorem exists_forall₂_spells_iff {us : List (List Char)} :
    (∃ ts, List.Forall₂ Spells us ts) ↔ ∀ u ∈ us, IsUnit u := by
  induction us with
  | nil => simp
  | cons u us ih =>
    rw [List.forall_mem_cons, ← ih, isUnit_iff_exists_spells]
    constructor
    · rintro ⟨ts, h⟩
      cases h with
      | cons hu hus => exact ⟨⟨_, hu⟩, _, hus⟩
    · rintro ⟨⟨t, hu⟩, ts, hus⟩
      exact ⟨t :: ts, .cons hu hus⟩

/-! ## Reading units -/

theorem readUnit_name {cs : List Char} (name rest : List Char) (hcs : cs = name ++ ';' :: rest)
    (hne : name ≠ []) (hsemicolon : ';' ∉ name) :
    readUnit ('L' :: cs) = some (named (.ofList (name.map dotted)), rest) := by
  have hall : ∀ c ∈ name, (decide (c ≠ ';')) = true :=
    fun c hc => decide_eq_true fun heq => hsemicolon (heq ▸ hc)
  have htake : cs.takeWhile (· ≠ ';') = name := by
    rw [hcs, List.takeWhile_append_of_pos hall, List.takeWhile_cons_of_neg (by simp),
      List.append_nil]
  have hdrop : cs.dropWhile (· ≠ ';') = ';' :: rest := by
    rw [hcs, List.dropWhile_append_of_pos hall, List.dropWhile_cons_of_neg (by simp)]
  rw [readUnit, hdrop, htake]
  exact if_neg hne

theorem readUnit_append {u : List Char} {t : ErasedType} (h : Spells u t) (rest : List Char) :
    readUnit (u ++ rest) = some (t, rest) := by
  induction h with
  | primitive p => cases p <;> rfl
  | named hne hsemicolon => exact readUnit_name _ rest (by simp) hne hsemicolon
  | array _ ih =>
    rw [List.cons_append, readUnit, ih]
    rfl

theorem exists_of_readUnit {cs rest : List Char} {t : ErasedType}
    (h : readUnit cs = some (t, rest)) : ∃ u, Spells u t ∧ cs = u ++ rest := by
  fun_induction readUnit cs generalizing t with
  | case1 => cases h
  | case2 cs ih =>
    obtain ⟨⟨element, rest'⟩, hread, heq⟩ := Option.map_eq_some_iff.1 h
    cases heq
    obtain ⟨u, hu, rfl⟩ := ih hread
    exact ⟨_, .array hu, rfl⟩
  | case3 => cases h
  | case4 => cases h
  | case5 cs c tail hdrop hne =>
    cases h
    -- The name ends at the first semicolon, which is the one that was dropped.
    have hhead := List.head?_dropWhile_not (fun c => decide (c ≠ ';')) cs
    have hsplit := List.takeWhile_append_dropWhile (p := fun c => decide (c ≠ ';')) (l := cs)
    rw [hdrop] at hhead hsplit
    obtain rfl : c = ';' := by simpa using hhead
    refine ⟨_, .named hne fun hmem => ?_, ?_⟩
    · simpa using List.all_eq_true.1 List.all_takeWhile _ hmem
    · simp only [List.cons_append, List.append_assoc, List.nil_append, hsplit]
  | case6 c cs =>
    obtain ⟨p, hp, heq⟩ := Option.map_eq_some_iff.1 h
    cases heq
    rw [Primitive.ofCode?_eq_some_iff.1 hp]
    exact ⟨_, .primitive p, rfl⟩

theorem readUnit_eq_some_iff {cs rest : List Char} {t : ErasedType} :
    readUnit cs = some (t, rest) ↔ ∃ u, Spells u t ∧ cs = u ++ rest := by
  constructor
  · exact exists_of_readUnit
  · rintro ⟨u, hu, rfl⟩
    exact readUnit_append hu rest

/-! ## Reading lists -/

theorem Spells.ne_nil {u : List Char} {t : ErasedType} (h : Spells u t) : u ≠ [] := by
  cases h <;> exact List.cons_ne_nil _ _

theorem readUnits_unit_append {u : List Char} {t : ErasedType} (h : Spells u t)
    (cs : List Char) : readUnits (u ++ cs) = (readUnits cs).map (t :: ·) := by
  have hread := readUnit_eq_some_iff.2 ⟨u, h, Eq.refl (u ++ cs)⟩
  obtain ⟨c, u, rfl⟩ := List.exists_cons_of_ne_nil h.ne_nil
  rw [List.cons_append] at hread ⊢
  rw [readUnits]
  split
  · simp_all
  · simp_all

theorem readUnits_append {us : List (List Char)} {ts : List ErasedType}
    (h : List.Forall₂ Spells us ts) (cs : List Char) :
    readUnits (us.flatten ++ cs) = (readUnits cs).map (ts ++ ·) := by
  induction h with
  | nil => simp
  | cons hu _ ih =>
    rw [List.flatten_cons, List.append_assoc, readUnits_unit_append hu, ih, Option.map_map]
    rfl

theorem exists_of_readUnits {cs : List Char} {ts : List ErasedType} (h : readUnits cs = some ts) :
    ∃ us, List.Forall₂ Spells us ts ∧ cs = us.flatten := by
  fun_induction readUnits cs generalizing ts with
  | case1 =>
    cases h
    exact ⟨[], .nil, rfl⟩
  | case2 => cases h
  | case3 c cs t rest hread ih =>
    obtain ⟨ts, hrest, rfl⟩ := Option.map_eq_some_iff.1 h
    obtain ⟨u, hu, hcs⟩ := readUnit_eq_some_iff.1 hread
    obtain ⟨us, hus, rfl⟩ := ih hrest
    exact ⟨u :: us, .cons hu hus, hcs⟩

/-- A list is read from a text just where the text is made of units that spell its types. -/
theorem readUnits_eq_some_iff {cs : List Char} {ts : List ErasedType} :
    readUnits cs = some ts ↔ ∃ us, List.Forall₂ Spells us ts ∧ cs = us.flatten := by
  constructor
  · exact exists_of_readUnits
  · rintro ⟨us, hus, rfl⟩
    have hread := readUnits_append hus []
    rwa [List.append_nil, readUnits, Option.map_some, List.append_nil] at hread

theorem readList_eq_ok_iff {text : String} {ts : List ErasedType} :
    readList text = .ok ts ↔ ∃ us, List.Forall₂ Spells us ts ∧ text.toList = us.flatten := by
  rw [← readUnits_eq_some_iff, readList]
  cases readUnits text.toList <;> simp

theorem read_eq_ok_iff {text : String} {t : ErasedType} :
    read text = .ok t ↔ Spells text.toList t := by
  have hunits : Spells text.toList t ↔ readUnits text.toList = some [t] := by
    rw [readUnits_eq_some_iff]
    constructor
    · intro h
      exact ⟨[text.toList], .cons h .nil, by simp⟩
    · rintro ⟨us, hus, htext⟩
      obtain ⟨u, rfl, hu⟩ : ∃ u, us = [u] ∧ Spells u t := by
        cases hus with
        | cons hu hnil =>
          cases hnil
          exact ⟨_, rfl, hu⟩
      rwa [htext, List.flatten_singleton]
  rw [hunits, read]
  split <;> simp_all

theorem eq_invalidDescriptor_of_readList {text : String} {e : IndexError}
    (h : readList text = .error e) : e = .invalidDescriptor text := by
  unfold readList at h
  split at h <;> cases h
  rfl

theorem eq_invalidDescriptor_of_read {text : String} {e : IndexError}
    (h : read text = .error e) : e = .invalidDescriptor text := by
  unfold read at h
  split at h <;> cases h
  rfl

/-- Units before a text that is read are read as before, and nothing after them is changed. -/
theorem readList_append {s : String} {ts : List ErasedType} (h : readList s = .ok ts)
    (t : String) (us : List ErasedType) :
    readList (s ++ t) = .ok us ↔ ∃ vs, readList t = .ok vs ∧ us = ts ++ vs := by
  obtain ⟨units, hunits, hs⟩ := readList_eq_ok_iff.1 h
  have happend := readUnits_append hunits t.toList
  rw [← hs, ← String.toList_append] at happend
  rw [readList, readList, happend]
  cases readUnits t.toList <;> simp [eq_comm]

/-! ## Writing -/

theorem Spells.descriptorChars_eq {u : List Char} {t : ErasedType} (h : Spells u t) :
    t.descriptorChars = u.map slashed := by
  induction h with
  | primitive p => cases p <;> rfl
  | @named name =>
    have hslashed : slashed ∘ dotted = slashed := by
      funext c
      by_cases hc : c = '/' <;> simp [slashed, dotted, hc]
    simp [descriptorChars, hslashed, slashed]
  | array _ ih => simp [descriptorChars, ih, slashed]

theorem descriptorOf_of_readList {s : String} {ts : List ErasedType} (h : readList s = .ok ts) :
    descriptorOf ts = .ofList (s.toList.map slashed) := by
  obtain ⟨us, hus, hs⟩ := readList_eq_ok_iff.1 h
  rw [descriptorOf, hs]
  refine congrArg String.ofList ?_
  clear h hs
  induction hus with
  | nil => rfl
  | cons hu _ ih => rw [List.flatMap_cons, List.flatten_cons, List.map_append, ih,
      hu.descriptorChars_eq]

/-! ## Reading what was written -/

/-- The class name at any depth of the type, if it has one, survives in a descriptor. -/
def HasPlainName (t : ErasedType) : Prop :=
  ∀ name, t.base = .named name → name ≠ "" ∧ ';' ∉ name.toList ∧ '/' ∉ name.toList

theorem Spells.hasPlainName {u : List Char} {t : ErasedType} (h : Spells u t) :
    t.HasPlainName := by
  induction h with
  | primitive p => exact fun _ hbase => by cases hbase
  | @named cs hne hsemicolon =>
    intro name hbase
    cases hbase
    have hdotted : ∀ c ∈ cs, dotted c ≠ ';' ∧ dotted c ≠ '/' := by
      intro c hc
      have hne : c ≠ ';' := fun heq => hsemicolon (heq ▸ hc)
      by_cases hslash : c = '/' <;> simp [dotted, hslash, hne]
    refine ⟨by simpa using hne, ?_, ?_⟩
    · simpa using fun c hc => (hdotted c hc).1
    · simpa using fun c hc => (hdotted c hc).2
  | array _ ih => exact ih

theorem dotted_slashed {c : Char} (hc : c ≠ '/') : dotted (slashed c) = c := by
  by_cases hdot : c = '.' <;> simp [dotted, slashed, hdot, hc]

theorem slashed_ne_semicolon {c : Char} (hc : c ≠ ';') : slashed c ≠ ';' := by
  by_cases hdot : c = '.' <;> simp [slashed, hdot, hc]

theorem HasPlainName.spells {t : ErasedType} (h : t.HasPlainName) : Spells t.descriptorChars t := by
  induction t with
  | primitive p => exact .primitive p
  | named name =>
    obtain ⟨hne, hsemicolon, hslash⟩ := h name rfl
    have hsemicolon' : ';' ∉ name.toList.map slashed := by
      intro hmem
      obtain ⟨c, hc, heq⟩ := List.mem_map.1 hmem
      exact slashed_ne_semicolon (fun heq => hsemicolon (heq ▸ hc)) heq
    have hback : (name.toList.map slashed).map dotted = name.toList := by
      rw [List.map_map]
      refine (List.map_congr_left fun c hc => ?_).trans (List.map_id _)
      exact dotted_slashed fun heq => hslash (heq ▸ hc)
    have hspells := Spells.named (by simpa using hne) hsemicolon'
    rwa [hback, String.ofList_toList] at hspells
  | array element ih => exact .array (ih h)

/-- A list is read back from its descriptor just where all class names are plain. -/
theorem readList_descriptorOf_iff {ts : List ErasedType} :
    readList (descriptorOf ts) = .ok ts ↔ ∀ t ∈ ts, t.HasPlainName := by
  rw [readList_eq_ok_iff, descriptorOf, String.toList_ofList]
  constructor
  · rintro ⟨us, hus, -⟩
    have hplain := hus.flip.imp fun t u (h : Spells u t) => And.intro h.hasPlainName h
    exact ((List.forall₂_and_left ts us).1 hplain).1
  · intro h
    refine ⟨ts.map descriptorChars, ?_, by rw [List.flatMap_def]⟩
    rw [List.forall₂_map_left_iff, List.forall₂_same]
    exact fun t ht => (h t ht).spells

theorem descriptorOf_inj {ts us : List ErasedType} (hts : ∀ t ∈ ts, t.HasPlainName)
    (hus : ∀ t ∈ us, t.HasPlainName) (h : descriptorOf ts = descriptorOf us) : ts = us := by
  have hread := readList_descriptorOf_iff.2 hts
  rw [h, readList_descriptorOf_iff.2 hus] at hread
  exact (Except.ok.inj hread).symm

/-- The texts that are read are the concatenations of units, those of a single type the units. A
failure names the whole text. What was read is written with slashes for dots, and texts that are
read can be put together. -/
theorem readList_grammar (s : String) :
    ((∃ ts, readList s = .ok ts)
        ↔ ∃ us : List (List Char), (∀ u ∈ us, IsUnit u) ∧ s.toList = us.flatten)
      ∧ ((∃ t, read s = .ok t) ↔ IsUnit s.toList)
      ∧ (∀ e, readList s = .error e → e = .invalidDescriptor s)
      ∧ (∀ e, read s = .error e → e = .invalidDescriptor s)
      ∧ ∀ ts, readList s = .ok ts →
          descriptorOf ts = .ofList (s.toList.map fun c => if c = '.' then '/' else c)
            ∧ ∀ (t : String) (us : List ErasedType),
              readList (s ++ t) = .ok us ↔ ∃ vs, readList t = .ok vs ∧ us = ts ++ vs := by
  refine ⟨?_, ?_, fun e => eq_invalidDescriptor_of_readList, fun e => eq_invalidDescriptor_of_read,
    fun ts h => ⟨descriptorOf_of_readList h, readList_append h⟩⟩
  · simp only [readList_eq_ok_iff, ← exists_forall₂_spells_iff]
    constructor
    · rintro ⟨ts, us, hus, hs⟩
      exact ⟨us, ⟨ts, hus⟩, hs⟩
    · rintro ⟨us, ⟨ts, hus⟩, hs⟩
      exact ⟨ts, us, hus, hs⟩
  · simp only [read_eq_ok_iff, isUnit_iff_exists_spells]

theorem readList_grammar_nested :
    readList "[La/b.C;I" = .ok [.array (.named "a.b.C"), .primitive .int]
      ∧ descriptorOf [.array (.named "a.b.C"), .primitive .int] = "[La/b/C;I"
      ∧ ∀ us, readList ("[La/b.C;I" ++ "[J") = .ok us
        ↔ ∃ vs, readList "[J" = .ok vs ∧ us = [.array (.named "a.b.C"), .primitive .int] ++ vs := by
  have hread : readList "[La/b.C;I" = .ok [.array (.named "a.b.C"), .primitive .int] := by
    decide +kernel
  obtain ⟨-, -, -, -, happend⟩ := readList_grammar "[La/b.C;I"
  exact ⟨hread, (happend _ hread).1, (happend _ hread).2 "[J"⟩

end ErasedType

end Jsni
