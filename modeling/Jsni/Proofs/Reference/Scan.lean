import Jsni.Proofs.Reference.WellFormed
import Jsni.Proofs.Text.Slice

/-!
# What a scan finds

A scan goes through a text in one pass: its tokens stand where they say, one after the other, and
what begins a reference outside of them is none. A well-formed reference is found wherever the text
before it has no `@`, and the scan goes on right after it.
-/

namespace Jsni

open Text

/-! ## Steps -/

theorem scanChars_cons_of_ne (owner : String) (offset : Nat) {c : Char} (hc : c ≠ '@')
    (cs : List Char) :
    scanChars owner offset (c :: cs) = scanChars owner (offset + c.utf8Size) cs := by
  rw [scanChars]
  simp [hc]

theorem scanChars_at_of_none (owner : String) (offset : Nat) {cs : List Char}
    (h : readReference cs = none) :
    scanChars owner offset ('@' :: cs) = scanChars owner (offset + 1) cs := by
  rw [scanChars]
  simp only [↓reduceIte]
  split
  · rfl
  · simp_all

theorem scanChars_at_of_fits (owner : String) (offset : Nat) {r : Reading} {rest : List Char}
    (h : r.Fits rest) :
    scanChars owner offset ('@' :: (r.chars ++ rest))
      = r.toToken owner offset :: scanChars owner (offset + byteLength ('@' :: r.chars)) rest := by
  rw [scanChars]
  simp only [↓reduceIte]
  split
  · simp_all [readReference_of_fits h]
  · simp_all [readReference_of_fits h]

theorem scanChars_append_of_not_mem (owner : String) (offset : Nat) {before : List Char}
    (h : '@' ∉ before) (cs : List Char) :
    scanChars owner offset (before ++ cs) = scanChars owner (offset + byteLength before) cs := by
  induction before generalizing offset with
  | nil => simp
  | cons c before ih =>
    have hc : c ≠ '@' := fun heq => h (heq ▸ List.mem_cons_self ..)
    have hbefore : '@' ∉ before := fun hmem => h (List.mem_cons_of_mem c hmem)
    rw [List.cons_append, scanChars_cons_of_ne owner offset hc, ih _ hbefore]
    simp [Nat.add_assoc]

/-- A body that is one reference. -/
theorem scan_of_fits (owner : String) (offset : Nat) {r : Reading} (h : r.Fits []) :
    scan (.ofList ('@' :: r.chars)) offset owner = [r.toToken owner offset] := by
  have hread := scanChars_at_of_fits owner offset h
  rw [List.append_nil] at hread
  rw [scan, String.toList_ofList, hread, scanChars]

/-- Induction along a scan: over characters that begin no reference and over whole readings. -/
theorem scan_induction {motive : List Char → Prop} (nil : motive [])
    (skip : ∀ c cs, c ≠ '@' → motive cs → motive (c :: cs))
    (idle : ∀ cs, readReference cs = none → motive cs → motive ('@' :: cs))
    (read : ∀ (r : Reading) rest, r.Fits rest → motive rest → motive ('@' :: (r.chars ++ rest)))
    (cs : List Char) : motive cs := by
  induction hn : cs.length using Nat.strongRecOn generalizing cs with
  | ind n ih =>
    subst hn
    cases cs with
    | nil => exact nil
    | cons c cs =>
      have hcs : motive cs := ih _ (by simp) cs rfl
      by_cases hc : c = '@'
      · subst hc
        cases hread : readReference cs with
        | none => exact idle cs hread hcs
        | some found =>
          obtain ⟨r, rest⟩ := found
          obtain ⟨rfl, hfits⟩ := readReference_eq_some_iff.1 hread
          -- The rest is shorter by the reading and the `@` before it.
          refine read r rest hfits (ih _ ?_ rest rfl)
          simp only [List.length_cons, List.length_append]
          omega
      · exact skip c cs hc hcs

/-! ## Tokens and their places -/

theorem exists_of_mem_scanChars {owner : String} {offset : Nat} {cs : List Char} {t : Token}
    (h : t ∈ scanChars owner offset cs) :
    ∃ before, ∃ r : Reading, ∃ rest, cs = before ++ '@' :: (r.chars ++ rest) ∧ r.Fits rest
      ∧ t = r.toToken owner (offset + byteLength before) := by
  induction cs using scan_induction generalizing offset with
  | nil => simp [scanChars] at h
  | skip c cs hc ih =>
    rw [scanChars_cons_of_ne owner offset hc] at h
    obtain ⟨before, r, rest, rfl, hfits, ht⟩ := ih h
    exact ⟨c :: before, r, rest, rfl, hfits, by rw [ht, byteLength_cons, Nat.add_assoc]⟩
  | idle cs hnone ih =>
    rw [scanChars_at_of_none owner offset hnone] at h
    obtain ⟨before, r, rest, rfl, hfits, ht⟩ := ih h
    exact ⟨'@' :: before, r, rest, rfl, hfits, by rw [ht, byteLength_cons, Nat.add_assoc]; rfl⟩
  | read r rest hfits ih =>
    rw [scanChars_at_of_fits owner offset hfits] at h
    rcases List.mem_cons.1 h with rfl | h
    · exact ⟨[], r, rest, rfl, hfits, rfl⟩
    · obtain ⟨before, r', rest', rfl, hfits', ht⟩ := ih h
      refine ⟨'@' :: r.chars ++ before, r', rest', by simp, hfits', ?_⟩
      rw [ht, byteLength_append, Nat.add_assoc]

theorem offset_le_of_mem_scanChars {owner : String} {offset : Nat} {cs : List Char} {t : Token}
    (h : t ∈ scanChars owner offset cs) : offset ≤ t.offset := by
  obtain ⟨before, r, rest, -, -, rfl⟩ := exists_of_mem_scanChars h
  simp

theorem length_scanChars_le (owner : String) (offset : Nat) (cs : List Char) :
    (scanChars owner offset cs).length ≤ cs.count '@' := by
  induction cs using scan_induction generalizing offset with
  | nil => simp [scanChars]
  | skip c cs hc ih =>
    rw [scanChars_cons_of_ne owner offset hc, List.count_cons_of_ne hc]
    exact ih _
  | idle cs hnone ih =>
    rw [scanChars_at_of_none owner offset hnone, List.count_cons_self]
    exact Nat.le_succ_of_le (ih _)
  | read r rest hfits ih =>
    rw [scanChars_at_of_fits owner offset hfits, List.length_cons, List.count_cons_self,
      List.count_append]
    have := ih (offset + byteLength ('@' :: r.chars))
    omega

/-- Each token ends before the next one begins. -/
theorem pairwise_scanChars (owner : String) (offset : Nat) (cs : List Char) :
    (scanChars owner offset cs).Pairwise fun t u => t.offset + t.length ≤ u.offset := by
  induction cs using scan_induction generalizing offset with
  | nil => simp [scanChars]
  | skip c cs hc ih =>
    rw [scanChars_cons_of_ne owner offset hc]
    exact ih _
  | idle cs hnone ih =>
    rw [scanChars_at_of_none owner offset hnone]
    exact ih _
  | read r rest hfits ih =>
    rw [scanChars_at_of_fits owner offset hfits]
    refine List.pairwise_cons.2 ⟨fun u hu => ?_, ih _⟩
    simpa using offset_le_of_mem_scanChars hu

/-! ## What is no token -/

/-- Whether the byte at an offset belongs to a token. -/
def Token.Covers (t : Token) (i : Nat) : Prop :=
  t.offset ≤ i ∧ i < t.offset + t.length

theorem append_of_byteLength_le {front rest before after : List Char}
    (h : front ++ rest = before ++ after) (hle : byteLength front ≤ byteLength before) :
    ∃ between, before = front ++ between ∧ rest = between ++ after := by
  rcases List.append_eq_append_iff.1 h with ⟨between, hbefore, hrest⟩ | ⟨between, rfl, hrest⟩
  · exact ⟨between, hbefore, hrest⟩
  · cases between with
    | nil => exact ⟨[], by simp, by simpa using hrest.symm⟩
    | cons c between =>
      have hpos := c.utf8Size_pos
      simp only [byteLength_append, byteLength_cons] at hle
      omega

/-- An `@` outside all tokens begins no reference. -/
theorem readReference_of_not_covers {owner : String} {offset : Nat} {cs before after : List Char}
    (hcs : cs = before ++ '@' :: after)
    (hout : ∀ t ∈ scanChars owner offset cs, ¬ t.Covers (offset + byteLength before)) :
    readReference after = none := by
  induction cs using scan_induction generalizing offset before with
  | nil => simp at hcs
  | skip c cs hc ih =>
    rw [scanChars_cons_of_ne owner offset hc] at hout
    cases before with
    | nil => exact absurd (List.cons.inj hcs).1 hc
    | cons d before =>
      obtain ⟨rfl, htail⟩ := List.cons.inj hcs
      rw [byteLength_cons, ← Nat.add_assoc] at hout
      exact ih htail hout
  | idle cs hnone ih =>
    rw [scanChars_at_of_none owner offset hnone] at hout
    cases before with
    | nil =>
      obtain ⟨-, rfl⟩ := List.cons.inj hcs
      exact hnone
    | cons d before =>
      obtain ⟨rfl, htail⟩ := List.cons.inj hcs
      rw [byteLength_cons, ← Nat.add_assoc] at hout
      exact ih htail hout
  | read r rest hfits ih =>
    rw [scanChars_at_of_fits owner offset hfits] at hout
    -- An `@` that the first token does not cover stands after its text.
    have hfirst := hout _ (List.mem_cons_self ..)
    have hle : byteLength ('@' :: r.chars) ≤ byteLength before := by
      simp only [Token.Covers, Reading.toToken_offset, Reading.toToken_length] at hfirst
      omega
    obtain ⟨between, rfl, hrest⟩ := append_of_byteLength_le hcs hle
    rw [byteLength_append, ← Nat.add_assoc] at hout
    exact ih hrest fun t ht => hout t (List.mem_cons_of_mem _ ht)

/-! ## Scans -/

theorem slice_of_mem_scan {body owner : String} {base : Nat} {t : Token}
    (ht : t ∈ scan body base owner) :
    base ≤ t.offset ∧ slice? body (t.offset - base) t.length = some t.text := by
  obtain ⟨before, r, rest, hbody, -, rfl⟩ := exists_of_mem_scanChars ht
  refine ⟨by simp, slice?_eq_some_iff.2 ⟨before, rest, ?_, ?_, ?_⟩⟩
  · rw [hbody, Reading.toList_text_toToken, List.cons_append]
  · simp
  · rw [Reading.toList_text_toToken, Reading.toToken_length]

theorem length_pos_of_mem_scan {body owner : String} {base : Nat} {t : Token}
    (ht : t ∈ scan body base owner) : 0 < t.length := by
  obtain ⟨before, r, rest, -, -, rfl⟩ := exists_of_mem_scanChars ht
  have hpos := Char.utf8Size_pos '@'
  simp only [Reading.toToken_length, byteLength_cons]
  omega

/-- What the tokens of a text are if its first byte has the offset `base`. -/
structure IsScan (body : String) (base : Nat) (tokens : List Token) : Prop where
  length_le : tokens.length ≤ body.toList.count '@'
  base_le : ∀ t ∈ tokens, base ≤ t.offset
  slice : ∀ t ∈ tokens, slice? body (t.offset - base) t.length = some t.text
  length_pos : ∀ t ∈ tokens, 0 < t.length
  head : ∀ t ∈ tokens, t.text.toList.head? = some '@'
  ordered : tokens.Pairwise fun t u => t.offset < u.offset ∧ t.offset + t.length ≤ u.offset
  /-- The first `@` of a malformed reference is its only one. -/
  at_malformed : ∀ m, .malformed m ∈ tokens → m.text.toList.count '@' = 1
  /-- A further `@` of a reference has a part of the signature and `)` after it. -/
  at_reference : ∀ r, .reference r ∈ tokens → ∀ before after,
    r.text.toList = before ++ '@' :: after → before ≠ [] →
      ∃ s, after = s ++ [')'] ∧ '@' :: s <:+ r.signature.toList
  /-- An `@` outside all tokens begins nothing. -/
  at_outside : ∀ before after, body.toList = before ++ '@' :: after →
    (∀ t ∈ tokens, ¬ t.Covers (base + byteLength before)) →
      ¬ BeginsIdentifier after ∧ ¬ [':', ':'] <+: after
  wellFormed : ∀ r, .reference r ∈ tokens → r.IsWellFormed

theorem isScan_scan (body : String) (base : Nat) (owner : String) :
    IsScan body base (scan body base owner) where
  length_le := length_scanChars_le owner base body.toList
  base_le t ht := (slice_of_mem_scan ht).1
  slice t ht := (slice_of_mem_scan ht).2
  length_pos t ht := length_pos_of_mem_scan ht
  head t ht := by
    obtain ⟨before, r, rest, -, -, rfl⟩ := exists_of_mem_scanChars ht
    rw [Reading.toList_text_toToken, List.head?_cons]
  ordered := by
    refine (pairwise_scanChars owner base body.toList).imp_of_mem fun {t u} ht _ hle => ⟨?_, hle⟩
    have hpos := length_pos_of_mem_scan ht
    omega
  at_malformed m hm := by
    obtain ⟨_, _, _, -, hfits, ht⟩ := exists_of_mem_scanChars hm
    exact hfits.count_at_malformed ht.symm
  at_reference r hr before after htext hbefore := by
    obtain ⟨_, _, _, -, hfits, ht⟩ := exists_of_mem_scanChars hr
    exact (hfits.isWellFormed ht.symm).at_mem_signature htext hbefore
  at_outside before after hbody hout :=
    readReference_eq_none_iff.1 (readReference_of_not_covers hbody hout)
  wellFormed r hr := by
    obtain ⟨_, _, _, -, hfits, ht⟩ := exists_of_mem_scanChars hr
    exact hfits.isWellFormed ht.symm

/-- A reference is found where it stands, and the scan goes on after it. -/
theorem scan_text_append {r : Reference} (hr : r.IsWellFormed) {before after : String}
    (hbefore : '@' ∉ before.toList) (hafter : r.EndsBefore after.toList) (base : Nat)
    (owner : String) :
    scan (before ++ r.text ++ after) base owner
      = .reference
          { r with offset := base + before.utf8ByteSize, length := r.text.utf8ByteSize, owner }
        :: scan after (base + before.utf8ByteSize + r.text.utf8ByteSize) owner := by
  have hbody : (before ++ r.text ++ after).toList
      = before.toList ++ '@' :: (r.reading.chars ++ after.toList) := by
    simp [r.toList_text]
  rw [scan, hbody, scanChars_append_of_not_mem owner base hbefore,
    scanChars_at_of_fits owner _ (hr.fits hafter), hr.toToken_reading, ← r.toList_text, scan]
  simp only [byteLength_toList]

theorem scan_text_append_accented :
    let r : Reference := ⟨0, 0, "a.Bé", "m", .method, "(@c.D)é", ""⟩
    r.IsWellFormed ∧ '@' ∉ "é=".toList ∧ r.EndsBefore "é @a.B".toList
      ∧ scan ("é=" ++ r.text ++ "é @a.B") 5 "p.O#n"
        = .reference { r with offset := 8, length := 19, owner := "p.O#n" }
          :: scan "é @a.B" 27 "p.O#n" := by
  intro r
  have hclass : IsQualifiedName (['a'] ++ '.' :: ['B', 'é']) :=
    .dotted (by decide) (.identifier (by decide +kernel))
  have hr : r.IsWellFormed :=
    { className := by simpa [r] using hclass
      member := by decide
      constructor_iff := by decide
      signature := by decide
      signature_eq_empty := by decide }
  have hat : '@' ∉ "é=".toList := by decide
  exact ⟨hr, hat, trivial, scan_text_append hr hat trivial 5 "p.O#n"⟩

end Jsni
