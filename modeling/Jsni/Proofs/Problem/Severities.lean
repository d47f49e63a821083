import Jsni.Problem.File
import Jsni.Proofs.Computation
import Jsni.Proofs.Json.Reader
import Mathlib.Data.List.Nodup
import Mathlib.Data.List.Perm.Basic

/-!
# Severities by key

For each kind of problem the last pair of its key decides, whatever comes between. So the pairs may
be gone through in any order that keeps those of one key in theirs, and a map that holds the last
pair of each key may be gone through in any order at all.
-/

namespace Jsni

/-! ## Pairs of a key -/

section Pairs

variable {α β : Type} [DecidableEq α] {pairs entries : List (α × β)} {key : α} {value : β}

/-- The value of the last pair that has the key. -/
def lastValue? (pairs : List (α × β)) (key : α) : Option β :=
  pairs.reverse.lookup key

/-- The pairs whose key does not come again: what a map holds that was filled pair by pair. -/
def lastPairs : List (α × β) → List (α × β)
  | []      => []
  | p :: ps => if p.1 ∈ ps.map Prod.fst then lastPairs ps else p :: lastPairs ps

theorem lastValue?_cons (p : α × β) (ps : List (α × β)) (key : α) :
    lastValue? (p :: ps) key
      = (lastValue? ps key).or (if key = p.1 then some p.2 else none) := by
  obtain ⟨k, v⟩ := p
  rw [lastValue?, List.reverse_cons, List.lookup_append, List.lookup_cons]
  by_cases h : key = k
  · rw [beq_iff_eq.2 h, if_pos h]
    rfl
  · rw [beq_eq_false_iff_ne.2 h, if_neg h]
    rfl

theorem lastValue?_eq_none_iff : lastValue? pairs key = none ↔ key ∉ pairs.map Prod.fst := by
  simp only [lastValue?, List.lookup_eq_none_iff, List.mem_reverse, bne_iff_ne, List.mem_map,
    not_exists, not_and]
  exact forall₂_congr fun p hp => ne_comm

theorem mem_of_lastValue? (h : lastValue? pairs key = some value) : (key, value) ∈ pairs := by
  induction pairs with
  | nil => simp [lastValue?] at h
  | cons p ps ih =>
    rw [lastValue?_cons, Option.or_eq_some_iff] at h
    rcases h with h | ⟨-, h⟩
    · exact List.mem_cons_of_mem _ (ih h)
    · split at h
      · rename_i hkey
        cases hkey
        cases h
        exact List.mem_cons_self ..
      · cases h

/-- Where no key is repeated, each pair is the last of its key. -/
theorem lastValue?_eq_some_iff (hnodup : (pairs.map Prod.fst).Nodup) :
    lastValue? pairs key = some value ↔ (key, value) ∈ pairs := by
  refine ⟨mem_of_lastValue?, fun hmem => ?_⟩
  induction pairs with
  | nil => cases hmem
  | cons p ps ih =>
    obtain ⟨hp, hps⟩ := List.nodup_cons.1 hnodup
    rw [lastValue?_cons]
    rcases List.mem_cons.1 hmem with rfl | hmem
    · rw [lastValue?_eq_none_iff.2 hp]
      simp
    · rw [ih hps hmem]
      rfl

theorem mem_keys_lastPairs_iff :
    key ∈ (lastPairs pairs).map Prod.fst ↔ key ∈ pairs.map Prod.fst := by
  fun_induction lastPairs pairs with
  | case1 => rfl
  | case2 p ps hp ih =>
    rw [ih, List.map_cons, List.mem_cons]
    exact ⟨.inr, fun h => h.elim (fun heq => heq ▸ hp) id⟩
  | case3 p ps hp ih => rw [List.map_cons, List.map_cons, List.mem_cons, List.mem_cons, ih]

theorem nodup_keys_lastPairs (pairs : List (α × β)) : ((lastPairs pairs).map Prod.fst).Nodup := by
  fun_induction lastPairs pairs with
  | case1 => exact List.nodup_nil
  | case2 p ps hp ih => exact ih
  | case3 p ps hp ih => exact List.nodup_cons.2 ⟨mt mem_keys_lastPairs_iff.1 hp, ih⟩

theorem lastValue?_lastPairs (pairs : List (α × β)) (key : α) :
    lastValue? (lastPairs pairs) key = lastValue? pairs key := by
  fun_induction lastPairs pairs with
  | case1 => rfl
  | case2 p ps hp ih =>
    rw [ih, lastValue?_cons]
    split
    · rename_i hkey
      -- The key comes again, so that its last pair is one of the rest.
      obtain ⟨value, hvalue⟩ := Option.ne_none_iff_exists'.1
        (fun hnone => lastValue?_eq_none_iff.1 hnone (hkey ▸ hp))
      rw [hvalue]
      rfl
    · rw [Option.or_none]
  | case3 p ps hp ih => rw [lastValue?_cons, lastValue?_cons, ih]

/-- The order in which the last pairs are gone through makes no difference. -/
theorem lastValue?_of_perm (h : entries.Perm (lastPairs pairs)) (key : α) :
    lastValue? entries key = lastValue? pairs key := by
  have hnodup : (entries.map Prod.fst).Nodup :=
    (h.map Prod.fst).nodup_iff.2 (nodup_keys_lastPairs pairs)
  rw [← lastValue?_lastPairs pairs]
  refine Option.ext fun value => ?_
  rw [lastValue?_eq_some_iff hnodup, lastValue?_eq_some_iff (nodup_keys_lastPairs pairs), h.mem_iff]

/-- The pairs of a key are all that its last value depends on. -/
theorem lastValue?_filter (pairs : List (α × β)) (key : α) :
    lastValue? (pairs.filter (·.1 = key)) key = lastValue? pairs key := by
  induction pairs with
  | nil => rfl
  | cons p ps ih =>
    by_cases hp : p.1 = key
    · rw [List.filter_cons_of_pos (by simpa using hp), lastValue?_cons, lastValue?_cons, ih]
    · rw [List.filter_cons_of_neg (by simpa using hp), lastValue?_cons, ih, if_neg (Ne.symm hp),
        Option.or_none]

end Pairs

/-! ## Overrides -/

namespace ProblemKind

theorem key_inj {k k' : ProblemKind} : k.key = k'.key ↔ k = k' := by
  refine ⟨fun h => ?_, congrArg key⟩
  have hkind := ofKey?_key k
  rw [h, ofKey?_key] at hkind
  exact (Option.some.inj hkind).symm

end ProblemKind

namespace Severities

variable {pairs : List (String × Severity)} {overrides : List (ProblemKind × Severity)}

theorem of_override (s : Severities) (kind : ProblemKind) (severity : Severity) (k : ProblemKind) :
    (s.override kind severity).of k = if k = kind then severity else s.of k :=
  rfl

/-- Of a run of overrides the last one of a kind counts. -/
theorem of_overrideAll (s : Severities) (overrides : List (ProblemKind × Severity))
    (k : ProblemKind) :
    (s.overrideAll overrides).of k = (lastValue? overrides k).getD (s.of k) := by
  induction overrides generalizing s with
  | nil => rfl
  | cons o os ih =>
    have hrest : (s.overrideAll (o :: os)).of k = _ := ih (s.override o.1 o.2)
    rw [hrest, of_override, lastValue?_cons]
    cases lastValue? os k with
    | some severity => rfl
    | none => split <;> rfl

theorem kindsOfKeys_eq_ok_iff :
    kindsOfKeys pairs = .ok overrides ↔ pairs = overrides.map fun o => (o.1.key, o.2) := by
  constructor
  · intro h
    fun_induction kindsOfKeys pairs generalizing overrides with
    | case1 =>
      cases h
      rfl
    | case2 key severity ps hkey => cases h
    | case3 key severity ps k hkey ih =>
      obtain ⟨os, hos, rfl⟩ := map_eq_ok_iff.1 h
      rw [ih hos, ProblemKind.ofKey?_eq_some_iff.1 hkey, List.map_cons]
  · rintro rfl
    induction overrides with
    | nil => rfl
    | cons o os ih =>
      rw [List.map_cons, kindsOfKeys, ProblemKind.ofKey?_key, ih]
      rfl

/-- The key at fault is one of the keys. -/
theorem exists_of_kindsOfKeys_eq_error {key : String} (h : kindsOfKeys pairs = .error key) :
    (∃ severity, (key, severity) ∈ pairs) ∧ ∀ k : ProblemKind, k.key ≠ key := by
  fun_induction kindsOfKeys pairs with
  | case1 => cases h
  | case2 key' severity ps hkey =>
    cases h
    refine ⟨⟨severity, List.mem_cons_self ..⟩, fun k hk => ?_⟩
    rw [ProblemKind.ofKey?_eq_some_iff.2 hk.symm] at hkey
    cases hkey
  | case3 key' severity ps k hkey ih =>
    obtain ⟨⟨severity', hmem⟩, hunknown⟩ := ih (map_eq_error_iff.1 h)
    exact ⟨⟨severity', List.mem_cons_of_mem _ hmem⟩, hunknown⟩

/-- The key belongs to a kind of problem. -/
def IsKey (key : String) : Prop :=
  ∃ k : ProblemKind, k.key = key

theorem isKey_key (k : ProblemKind) : IsKey k.key :=
  ⟨k, rfl⟩

theorem exists_kindsOfKeys_eq_ok_iff :
    (∃ overrides, kindsOfKeys pairs = .ok overrides) ↔ ∀ key ∈ pairs.map Prod.fst, IsKey key := by
  constructor
  · rintro ⟨overrides, h⟩ key hkey
    rw [kindsOfKeys_eq_ok_iff.1 h, List.map_map] at hkey
    obtain ⟨o, -, rfl⟩ := List.mem_map.1 hkey
    exact isKey_key o.1
  · intro hkeys
    cases h : kindsOfKeys pairs with
    | ok overrides => exact ⟨overrides, rfl⟩
    | error key =>
      obtain ⟨⟨severity, hmem⟩, hunknown⟩ := exists_of_kindsOfKeys_eq_error h
      obtain ⟨k, hk⟩ := hkeys key (List.mem_map_of_mem hmem)
      exact absurd hk (hunknown k)

/-- Each kind has a key of its own, so what is said last of its key is said last of the kind. -/
theorem lastValue?_map_key (overrides : List (ProblemKind × Severity)) (k : ProblemKind) :
    lastValue? (overrides.map fun o => (o.1.key, o.2)) k.key = lastValue? overrides k := by
  induction overrides with
  | nil => rfl
  | cons o os ih => simp only [List.map_cons, lastValue?_cons, ih, ProblemKind.key_inj]

/-- Pairs by key make severities if all keys are known, and then the last pair of each key
decides. -/
theorem ofKeys_eq_ok_iff {s : Severities} :
    ofKeys pairs = .ok s ↔ (∀ key ∈ pairs.map Prod.fst, IsKey key)
      ∧ ∀ k, s.of k = (lastValue? pairs k.key).getD k.defaultSeverity := by
  rw [ofKeys, map_eq_ok_iff, ← exists_kindsOfKeys_eq_ok_iff]
  have hof {overrides : List (ProblemKind × Severity)} (h : kindsOfKeys pairs = .ok overrides)
      (k : ProblemKind) : (default.overrideAll overrides).of k
        = (lastValue? pairs k.key).getD k.defaultSeverity := by
    rw [of_overrideAll, kindsOfKeys_eq_ok_iff.1 h, lastValue?_map_key]
    rfl
  constructor
  · rintro ⟨overrides, h, rfl⟩
    exact ⟨⟨overrides, h⟩, hof h⟩
  · rintro ⟨⟨overrides, h⟩, hs⟩
    refine ⟨overrides, h, ?_⟩
    obtain ⟨of⟩ := s
    exact congrArg Severities.mk (funext fun k => (hof h k).trans (hs k).symm)

/-- Pairs with the same last values make the same severities. -/
theorem ofKeys_eq_ok_congr {pairs' : List (String × Severity)}
    (h : ∀ key, lastValue? pairs' key = lastValue? pairs key) {s : Severities} :
    ofKeys pairs' = .ok s ↔ ofKeys pairs = .ok s := by
  have hkeys : ∀ key, key ∈ pairs'.map Prod.fst ↔ key ∈ pairs.map Prod.fst := fun key => by
    rw [← not_iff_not, ← lastValue?_eq_none_iff, ← lastValue?_eq_none_iff, h]
  simp only [ofKeys_eq_ok_iff, hkeys, h]

theorem exists_of_ofKeys_eq_error {key : String} (h : ofKeys pairs = .error key) :
    key ∈ pairs.map Prod.fst ∧ ¬ IsKey key := by
  obtain ⟨⟨severity, hmem⟩, hunknown⟩ := exists_of_kindsOfKeys_eq_error (map_eq_error_iff.1 h)
  exact ⟨List.mem_map_of_mem hmem, fun ⟨k, hk⟩ => hunknown k hk⟩

/-! ## Severity files -/

/-- The pairs of a severity file, as the reader finds them. -/
def readPairs (text : String) : Except Json.ReadError (List (String × Severity)) :=
  Json.decodeText (Json.Decode.pairs Severity.decode) text

def pairsToJson (pairs : List (String × Severity)) : Json :=
  .object (pairs.map fun p => (p.1, .string p.2.keyword))

/-- Every list of pairs makes a severity file. -/
theorem readPairs_render (pairs : List (String × Severity)) :
    readPairs (pairsToJson pairs).render = .ok pairs := by
  have hmembers : (Json.draftMembers (pairs.map fun p => (p.1, .string p.2.keyword))).mapM
      (fun m => do return (← Json.Decode.text m.1, ← Severity.decode m.2)) = .ok pairs := by
    rw [mapM_eq_ok_iff, Json.draftMembers_eq, List.map_map, List.forall₂_map_left_iff,
      List.forall₂_same]
    rintro ⟨key, severity⟩ -
    cases severity <;> rfl
  rw [readPairs, Json.decodeText, Json.Document.ofText_render]
  exact bind_eq_ok_iff.2 ⟨pairs, bind_eq_ok_iff.2 ⟨pairs, hmembers, rfl⟩, rfl⟩

theorem ofJson_of_readPairs {text : String} (h : readPairs text = .ok pairs) :
    ofJson text = (ofKeys pairs).mapError .unknownKey := by
  rw [readPairs] at h
  rw [ofJson, h]

/-- A severity file that the reader accepts gives severities just where all its keys are known, and
else fails for one that is not. The last pair of its key decides of each kind, and the last of any
overrides after that. A map that holds the last pair of each key gives the same in whatever order it
is gone through, and so does a file with the pairs of different keys in another order. -/
theorem ofJson_by_key {text : String} {pairs : List (String × Severity)}
    (h : readPairs text = .ok pairs) :
    ((∃ s, ofJson text = .ok s) ↔ ∀ key ∈ pairs.map Prod.fst, IsKey key)
      ∧ (∀ e, ofJson text = .error e →
          ∃ key ∈ pairs.map Prod.fst, e = .unknownKey key ∧ ¬ IsKey key)
      ∧ (∀ s, ofJson text = .ok s →
          (∀ k, s.of k = (lastValue? pairs k.key).getD k.defaultSeverity)
            ∧ ∀ overrides k,
              (s.overrideAll overrides).of k = (lastValue? overrides k).getD (s.of k))
      ∧ (∀ visited, visited.Perm (lastPairs pairs) →
          (∀ s, ofKeys visited = .ok s ↔ ofJson text = .ok s)
            ∧ ∀ key, ofKeys visited = .error key → key ∈ pairs.map Prod.fst ∧ ¬ IsKey key)
      ∧ ∀ text' pairs', readPairs text' = .ok pairs' →
          (∀ key, pairs'.filter (·.1 = key) = pairs.filter (·.1 = key)) →
            ∀ s, ofJson text' = .ok s ↔ ofJson text = .ok s := by
  have hok {s : Severities} : ofJson text = .ok s ↔ ofKeys pairs = .ok s := by
    rw [ofJson_of_readPairs h, mapError_eq_ok_iff]
  refine ⟨?_, ?_, ?_, ?_, ?_⟩
  · simp only [hok, ofKeys_eq_ok_iff]
    exact ⟨fun ⟨s, hkeys, _⟩ => hkeys, fun hkeys => ⟨⟨_⟩, hkeys, fun k => rfl⟩⟩
  · intro e he
    rw [ofJson_of_readPairs h] at he
    obtain ⟨key, hkey, rfl⟩ := mapError_eq_error_iff.1 he
    obtain ⟨hmem, hunknown⟩ := exists_of_ofKeys_eq_error hkey
    exact ⟨key, hmem, rfl, hunknown⟩
  · intro s hs
    exact ⟨(ofKeys_eq_ok_iff.1 (hok.1 hs)).2, s.of_overrideAll⟩
  · intro visited hvisited
    refine ⟨fun s => ?_, fun key hkey => ?_⟩
    · rw [hok, ofKeys_eq_ok_congr (lastValue?_of_perm hvisited)]
    · obtain ⟨hmem, hunknown⟩ := exists_of_ofKeys_eq_error hkey
      refine ⟨mem_keys_lastPairs_iff.1 ?_, hunknown⟩
      exact (hvisited.map Prod.fst).mem_iff.1 hmem
  · intro text' pairs' h' hsame s
    rw [hok, ofJson_of_readPairs h', mapError_eq_ok_iff]
    refine ofKeys_eq_ok_congr fun key => ?_
    rw [← lastValue?_filter, hsame, lastValue?_filter]

/-- A key given twice, with another one between. -/
def repeatedPairs : List (String × Severity) :=
  [("JSNI_PARSE_ERROR", .ignore), ("JSNI_JAVA_REF_AMBIGUOUS", .warning),
    ("JSNI_PARSE_ERROR", .error)]

theorem ofJson_by_key_repeated :
    let text := (pairsToJson repeatedPairs).render
    let visited := [("JSNI_PARSE_ERROR", .error), ("JSNI_JAVA_REF_AMBIGUOUS", .warning)]
    let swapped := [("JSNI_JAVA_REF_AMBIGUOUS", .warning), ("JSNI_PARSE_ERROR", .ignore),
      ("JSNI_PARSE_ERROR", .error)]
    readPairs text = .ok repeatedPairs
      ∧ visited.Perm (lastPairs repeatedPairs)
      ∧ (∀ key, swapped.filter (·.1 = key) = repeatedPairs.filter (·.1 = key))
      ∧ ∃ s, ofJson text = .ok s ∧ ofKeys visited = .ok s
        ∧ ofJson (pairsToJson swapped).render = .ok s
        ∧ s.of .parseError = .error ∧ s.of .ambiguous = .warning ∧ s.of .unresolvedType = .error
        ∧ (s.overrideAll [(.ambiguous, .ignore), (.ambiguous, .error)]).of .ambiguous = .error := by
  intro text visited swapped
  have hread := readPairs_render repeatedPairs
  have hvisited : visited.Perm (lastPairs repeatedPairs) := by decide
  have hswapped : ∀ key, swapped.filter (·.1 = key) = repeatedPairs.filter (·.1 = key) := by
    intro key
    by_cases hkey : "JSNI_PARSE_ERROR" = key
    · subst hkey
      decide
    · simp [swapped, repeatedPairs, List.filter_cons, hkey]
  have hknown : ∀ key ∈ repeatedPairs.map Prod.fst, IsKey key := by
    have hparse : IsKey "JSNI_PARSE_ERROR" := isKey_key .parseError
    have hambiguous : IsKey "JSNI_JAVA_REF_AMBIGUOUS" := isKey_key .ambiguous
    simp [repeatedPairs, hparse, hambiguous]
  obtain ⟨hsuccess, -, hof, hvisit, hreorder⟩ := ofJson_by_key hread
  obtain ⟨s, hs⟩ := hsuccess.2 hknown
  obtain ⟨hkind, hoverride⟩ := hof s hs
  refine ⟨hread, hvisited, hswapped, s, hs, ((hvisit visited hvisited).1 s).2 hs,
    (hreorder _ _ (readPairs_render swapped) hswapped s).2 hs, hkind .parseError, hkind .ambiguous,
    hkind .unresolvedType, hoverride _ .ambiguous⟩

end Severities

end Jsni
