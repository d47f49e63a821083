/-!
# Matching parentheses
-/

namespace Jsni

/-- The text up to the parenthesis that closes the `depth` open ones and one more, and the text
after it. -/
def spanClosing (depth : Nat) : List Char → Option (List Char × List Char)
  | []      => none
  | c :: cs =>
    if c = '(' then
      (spanClosing (depth + 1) cs).map fun (inside, rest) => (c :: inside, rest)
    else if c = ')' then
      match depth with
      | 0         => some ([], cs)
      | depth + 1 => (spanClosing depth cs).map fun (inside, rest) => (c :: inside, rest)
    else (spanClosing depth cs).map fun (inside, rest) => (c :: inside, rest)

theorem append_of_spanClosing {depth : Nat} {cs inside rest : List Char}
    (h : spanClosing depth cs = some (inside, rest)) : inside ++ ')' :: rest = cs := by
  induction cs generalizing depth inside with
  | nil => simp [spanClosing] at h
  | cons c cs ih =>
    unfold spanClosing at h
    split at h
    · obtain ⟨⟨i, r⟩, hspan, heq⟩ := Option.map_eq_some_iff.1 h
      cases heq
      simp [ih hspan]
    · split at h
      · split at h
        · cases h
          simp_all
        · obtain ⟨⟨i, r⟩, hspan, heq⟩ := Option.map_eq_some_iff.1 h
          cases heq
          simp [ih hspan]
      · obtain ⟨⟨i, r⟩, hspan, heq⟩ := Option.map_eq_some_iff.1 h
        cases heq
        simp [ih hspan]

end Jsni
