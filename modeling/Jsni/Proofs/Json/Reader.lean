import Jsni.Json.Reader
import Jsni.Proofs.Json.Symbol

/-!
# Reading written values

A value that was written on one line is read as the draft that says the same and has no flaw. The
induction is over the value: reading one that stands anywhere in a text completes it in the frames
that are open there.
-/

namespace Jsni.Json

/-! ## Drafts of values -/

mutual

/-- The draft of a value, without any flaw. -/
def draft : Json → Draft
  | null           => .null
  | number n       => .number (numeral n)
  | string s       => .string (.ok s)
  | array items    => .array (draftItems items) none
  | object members => .object (draftMembers members) none

def draftItems : List Json → List Draft
  | []      => []
  | j :: js => draft j :: draftItems js

def draftMembers : List (String × Json) → List (Except Flaw String × Draft)
  | []           => []
  | (k, j) :: ms => (.ok k, draft j) :: draftMembers ms

end

theorem draftItems_eq (items : List Json) : draftItems items = items.map draft := by
  induction items with
  | nil => rfl
  | cons j js ih => rw [draftItems, ih, List.map_cons]

theorem draftMembers_eq (members : List (String × Json)) :
    draftMembers members = members.map fun m => (.ok m.1, m.2.draft) := by
  induction members with
  | nil => rfl
  | cons m ms ih => rw [draftMembers, ih, List.map_cons]

/-- A property of all values, proved for containers from what they hold. -/
theorem induction {P : Json → Prop} (null : P .null) (number : ∀ n, P (.number n))
    (string : ∀ s, P (.string s)) (array : ∀ items, (∀ j ∈ items, P j) → P (.array items))
    (object : ∀ members, (∀ m ∈ members, P m.2) → P (.object members)) (j : Json) : P j := by
  refine @Json.rec P (fun items => ∀ j ∈ items, P j) (fun members => ∀ m ∈ members, P m.2)
    (fun m => P m.2) null number string array object ?_ ?_ ?_ ?_ ?_ j
  · simp
  · exact fun j js hj hjs => List.forall_mem_cons.2 ⟨hj, hjs⟩
  · simp
  · exact fun m ms hm hms => List.forall_mem_cons.2 ⟨hm, hms⟩
  · exact fun k j hj => hj

/-! ## Steps -/

namespace Assembly

theorem assemble_cons {a a' : Assembly} {s : Symbol} (hopen : a.isFinished = false)
    (hstep : a.step s = .ok a') (ss : List Symbol) : assemble a (s :: ss) = assemble a' ss := by
  rw [assemble, hopen, hstep]
  rfl

/-- Where an item is awaited, all but the end of the array is read as a value. -/
theorem assemble_item {frames : List Frame} {s : Symbol} (hs : s ≠ .mark ']') (ss : List Symbol) :
    assemble ⟨frames, .item⟩ (s :: ss) = assemble ⟨frames, .value⟩ (s :: ss) := by
  have hstep : step ⟨frames, .item⟩ s = step ⟨frames, .value⟩ s := by
    unfold step
    split <;> simp_all
  rw [assemble, assemble, hstep]
  rfl

end Assembly

/-! ## Values -/

theorem separated_cons_cons (separator p q : List Char) (ps : List (List Char)) :
    separated separator (p :: q :: ps) = p ++ separator ++ separated separator (q :: ps) :=
  rfl

open Assembly

/-- Read in the midst of a text, the value is complete where it ends. -/
def IsReadBack (j : Json) : Prop :=
  ∀ (frames : List Frame) (rest : List Char), EndsNumber rest →
    assemble ⟨frames, .value⟩ (symbols (j.compact ++ rest))
      = assemble (complete frames j.draft) (symbols rest)

theorem exists_symbols_compact (j : Json) {rest : List Char} (hrest : EndsNumber rest) :
    ∃ s ss, symbols (j.compact ++ rest) = s :: ss ∧ s ≠ .mark ']' := by
  cases j with
  | null => exact ⟨_, _, symbols_null rest, by simp⟩
  | number n => exact ⟨_, _, symbols_number n hrest, by simp⟩
  | string s => exact ⟨_, _, symbols_quote s rest, by simp⟩
  | array items => exact ⟨_, _, symbols_mark rfl _, by simp⟩
  | object members => exact ⟨_, _, symbols_mark rfl _, by simp⟩

/-- The items of an array, from one that must be there to the closing bracket. -/
theorem assemble_items {j : Json} (hj : j.IsReadBack) {js : List Json}
    (hjs : ∀ i ∈ js, i.IsReadBack) (read : List Draft) (frames : List Frame) (rest : List Char) :
    assemble ⟨.array read :: frames, .value⟩
        (symbols (separated [','] (compactItems (j :: js)) ++ ']' :: rest))
      = assemble (complete frames (.array (read.reverse ++ draftItems (j :: js)) none))
        (symbols rest) := by
  induction js generalizing j read with
  | nil =>
    rw [compactItems, compactItems, separated, hj _ _ (endsNumber_cons (by simp) _),
      symbols_mark rfl]
    refine (assemble_cons rfl rfl _).trans ?_
    rw [List.reverse_cons]
    rfl
  | cons i js ih =>
    obtain ⟨hi, hjs⟩ := List.forall_mem_cons.1 hjs
    rw [compactItems, compactItems, separated_cons_cons, List.append_assoc, List.append_assoc,
      List.singleton_append, hj _ _ (endsNumber_cons (by simp) _), symbols_mark rfl]
    refine (assemble_cons rfl rfl _).trans ?_
    rw [← compactItems, ih hi hjs (j.draft :: read), List.reverse_cons, List.append_assoc,
      List.singleton_append]
    rfl

/-- After the opening bracket no written item is taken for the closing one. -/
theorem assemble_first_item (j : Json) (js : List Json) (frames : List Frame) (rest : List Char) :
    assemble ⟨.array [] :: frames, .item⟩
        (symbols (separated [','] (compactItems (j :: js)) ++ ']' :: rest))
      = assemble ⟨.array [] :: frames, .value⟩
        (symbols (separated [','] (compactItems (j :: js)) ++ ']' :: rest)) := by
  -- What follows the first item is a comma or the closing bracket, so a number ends there.
  obtain ⟨more, hmore, hitems⟩ : ∃ more, EndsNumber more ∧
      separated [','] (compactItems (j :: js)) ++ ']' :: rest = j.compact ++ more := by
    cases js with
    | nil => exact ⟨_, endsNumber_cons (by simp) rest, rfl⟩
    | cons i js =>
      rw [compactItems, compactItems, separated_cons_cons, List.append_assoc, List.append_assoc]
      exact ⟨_, endsNumber_cons (by simp) _, rfl⟩
  obtain ⟨s, ss, hsymbols, hs⟩ := exists_symbols_compact j hmore
  rw [hitems, hsymbols, assemble_item hs]

theorem assemble_member {m : String × Json} (hm : m.2.IsReadBack)
    (read : List (Except Flaw String × Draft)) (frames : List Frame) {rest : List Char}
    (hrest : EndsNumber rest) :
    assemble ⟨frames, .key read⟩ (symbols (quote m.1 ++ ':' :: m.2.compact ++ rest))
      = assemble ⟨.object ((.ok m.1, m.2.draft) :: read) (.ok m.1) :: frames, .separator⟩
        (symbols rest) := by
  rw [List.append_assoc, List.cons_append, symbols_quote, symbols_mark rfl]
  refine (assemble_cons rfl rfl _).trans ((assemble_cons rfl rfl _).trans ?_)
  rw [hm _ _ hrest]
  rfl

/-- The members of an object, from one that must be there to the closing brace. -/
theorem assemble_members {m : String × Json} (hm : m.2.IsReadBack) {ms : List (String × Json)}
    (hms : ∀ m ∈ ms, m.2.IsReadBack) (read : List (Except Flaw String × Draft))
    (frames : List Frame) (rest : List Char) :
    assemble ⟨frames, .key read⟩
        (symbols (separated [','] (compactMembers (m :: ms)) ++ '\x7d' :: rest))
      = assemble (complete frames (.object (read.reverse ++ draftMembers (m :: ms)) none))
        (symbols rest) := by
  induction ms generalizing m read with
  | nil =>
    rw [compactMembers, compactMembers, separated,
      assemble_member hm _ _ (endsNumber_cons (by simp) _), symbols_mark rfl]
    refine (assemble_cons rfl rfl _).trans ?_
    rw [List.reverse_cons]
    rfl
  | cons n ms ih =>
    obtain ⟨hn, hms⟩ := List.forall_mem_cons.1 hms
    rw [compactMembers, compactMembers, separated_cons_cons, List.append_assoc, List.append_assoc,
      List.singleton_append, assemble_member hm _ _ (endsNumber_cons (by simp) _),
      symbols_mark rfl]
    refine (assemble_cons rfl rfl _).trans ?_
    rw [← compactMembers, ih hn hms ((.ok m.1, m.2.draft) :: read), List.reverse_cons,
      List.append_assoc, List.singleton_append]
    rfl

/-- Every value is read back, wherever it stands. -/
theorem isReadBack (j : Json) : j.IsReadBack := by
  -- The frames and what follows are general, for items are read in other frames than their array.
  induction j using Json.induction with
  | null =>
    intro frames rest _
    exact (congrArg _ (symbols_null rest)).trans (assemble_cons rfl rfl _)
  | number n =>
    intro frames rest hrest
    exact (congrArg _ (symbols_number n hrest)).trans (assemble_cons rfl rfl _)
  | string s =>
    intro frames rest _
    exact (congrArg _ (symbols_quote s rest)).trans (assemble_cons rfl rfl _)
  | array items ih =>
    intro frames rest _
    rw [compact, List.append_assoc, List.cons_append, symbols_mark rfl]
    refine (assemble_cons rfl rfl _).trans ?_
    cases items with
    | nil => exact (congrArg _ (symbols_mark rfl rest)).trans (assemble_cons rfl rfl _)
    | cons j js =>
      obtain ⟨hj, hjs⟩ := List.forall_mem_cons.1 ih
      exact (assemble_first_item j js frames rest).trans (assemble_items hj hjs [] frames rest)
  | object members ih =>
    intro frames rest _
    rw [compact, List.append_assoc, List.cons_append, symbols_mark rfl]
    refine (assemble_cons rfl rfl _).trans ?_
    cases members with
    | nil => exact (congrArg _ (symbols_mark rfl rest)).trans (assemble_cons rfl rfl _)
    | cons m ms =>
      obtain ⟨hm, hms⟩ := List.forall_mem_cons.1 ih
      exact assemble_members hm hms [] frames rest

theorem Document.ofText_render (j : Json) : Document.ofText j.render = ⟨j.draft, false⟩ := by
  have hread := j.isReadBack [] [] endsNumber_nil
  rw [List.append_nil, symbols] at hread
  rw [Document.ofText, render, String.toList_ofList]
  exact hread

/-- A reader of texts and a printer are inverse: what is printed is read as the value that it was
printed from, with nothing after it. -/
def ReadsPrinted (read : String → Document) (print : Json → String) : Prop :=
  ∀ j : Json, read (print j) = ⟨j.draft, false⟩

theorem readsPrinted_render : ReadsPrinted Document.ofText render :=
  Document.ofText_render

end Jsni.Json
