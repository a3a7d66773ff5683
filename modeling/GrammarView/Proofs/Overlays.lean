import GrammarView.Source.Variation
import Mathlib.Data.List.Nodup
import Mathlib.Tactic.Tauto

/-!
# Overlays

An overlay is applied entry by entry. What comes out is told here at once: the rules of which the
overlay says nothing or something else than that they go, each in its place, and then those of its
bodies whose names are new. So it does not matter that a rule is taken away before another one is
put in, and no entry touches the rule of another name.
-/

namespace GrammarView

namespace Source

variable {rules overlay : Entries Json}

/-- Whether an overlay takes the rule of a name away. -/
def deletes (overlay : Entries Json) (name : String) : Bool :=
  match overlay.get? name with
  | some .null => true
  | _ => false

/-- What an overlay makes of an entry that it does not take away. -/
def overlaid (overlay : Entries Json) (entry : String × Json) : String × Json :=
  (entry.1, (overlay.get? entry.1).getD entry.2)

/-- The rules of which an overlay is made up: what is left of the rules, each in its place, and
then the new ones. -/
def overlaidRules (rules overlay : Entries Json) : Entries Json :=
  (rules.filter fun entry => !deletes overlay entry.1).map (overlaid overlay)
    ++ overlay.filter fun entry => !deletes overlay entry.1 && !rules.has entry.1

theorem deletes_iff {name : String} :
    deletes overlay name = true ↔ overlay.get? name = some .null := by
  unfold deletes
  split <;> simp_all

/-- What an entry of an overlay says about its name, its other entries do not. -/
theorem deletes_cons_of_ne {name other : String} {body : Json} (different : name ≠ other) :
    deletes ((name, body) :: overlay) other = deletes overlay other := by
  rw [deletes, Entries.get?_cons_of_ne different, deletes]

theorem overlaid_cons_of_ne {name : String} {body : Json} {entry : String × Json}
    (different : name ≠ entry.1) :
    overlaid ((name, body) :: overlay) entry = overlaid overlay entry := by
  rw [overlaid, Entries.get?_cons_of_ne different, overlaid]

/-- New entries stay new when only another name changes. -/
theorem filter_new_congr {others : Entries Json} {name : String} (fresh : name ∉ overlay.names)
    (same : ∀ other, other ≠ name → others.has other = rules.has other) (body : Json) :
    overlay.filter (fun entry => !deletes overlay entry.1 && !others.has entry.1) =
      overlay.filter fun entry =>
        !deletes ((name, body) :: overlay) entry.1 && !rules.has entry.1 := by
  refine List.filter_congr fun entry member => ?_
  have different : name ≠ entry.1 := by
    rintro rfl
    exact fresh (List.mem_map_of_mem member)
  rw [deletes_cons_of_ne different, same entry.1 different.symm]

/-- Taking a rule away first comes to the same. -/
theorem overlaidRules_erase {name : String} (fresh : name ∉ overlay.names) :
    overlaidRules (rules.erase name) overlay = overlaidRules rules ((name, .null) :: overlay) := by
  have gone : deletes ((name, .null) :: overlay) name = true :=
    deletes_iff.mpr Entries.get?_cons_self
  have others : ∀ other, other ≠ name → (rules.erase name).has other = rules.has other := by
    intro other different
    simp only [Entries.has, Entries.erase, List.any_filter]
    refine List.any_congr rfl fun entry => ?_
    by_cases same : entry.1 = other <;> simp [same, different]
  unfold overlaidRules
  rw [List.filter_cons_of_neg (by simp [gone]), filter_new_congr fresh others .null]
  congr 1
  rw [Entries.erase, List.filter_filter]
  have left : rules.filter (fun entry => !deletes overlay entry.1 && entry.1 != name) =
      rules.filter fun entry => !deletes ((name, .null) :: overlay) entry.1 := by
    refine List.filter_congr fun entry _ => ?_
    by_cases same : entry.1 = name
    · simp [same, gone]
    · rw [deletes_cons_of_ne (Ne.symm same)]
      simp [same]
  rw [left]
  refine List.map_congr_left fun entry member => ?_
  have different : name ≠ entry.1 := by
    rintro rfl
    simp [gone] at member
  exact (overlaid_cons_of_ne different).symm

/-- A name of which an overlay says nothing is not deleted. -/
theorem deletes_of_fresh {name : String} (fresh : name ∉ overlay.names) :
    deletes overlay name = false := by
  rw [deletes, Entries.get?_eq_none_iff.mpr fresh]

/-- An entry of which an overlay says nothing stays as it is. -/
theorem overlaid_of_fresh {entry : String × Json} (fresh : entry.1 ∉ overlay.names) :
    overlaid overlay entry = entry := by
  rw [overlaid, Entries.get?_eq_none_iff.mpr fresh, Option.getD_none]

section Insertion

variable {name : String} {body : Json}

/-- A name that is given a body is not deleted. -/
theorem deletes_cons_self (given : body ≠ .null) :
    deletes ((name, body) :: overlay) name = false := by
  refine Bool.eq_false_iff.mpr fun gone => given ?_
  exact Option.some.inj (Entries.get?_cons_self.symm.trans (deletes_iff.mp gone))

theorem has_insert_of_ne {other : String} (different : other ≠ name) :
    (rules.insert name body).has other = rules.has other := by
  rw [Bool.eq_iff_iff, Entries.has_iff_mem_names, Entries.has_iff_mem_names,
    Entries.mem_names_insert]
  simp [different]

/-- Replacing a rule first comes to the same. -/
theorem overlaidRules_replace (distinct : rules.Distinct) (fresh : name ∉ overlay.names)
    (given : body ≠ .null) (known : name ∈ rules.names) :
    overlaidRules (rules.insert name body) overlay =
      overlaidRules rules ((name, body) :: overlay) := by
  have old : ¬ (!deletes ((name, body) :: overlay) name && !rules.has name) = true := by
    simp [Entries.has_iff_mem_names.mpr known]
  have left : rules.filter ((fun entry => !deletes overlay entry.1) ∘ fun entry =>
      if entry.1 = name then (name, body) else entry) =
      rules.filter fun entry => !deletes ((name, body) :: overlay) entry.1 := by
    refine List.filter_congr fun entry _ => ?_
    by_cases same : entry.1 = name
    · simp [same, deletes_cons_self given, deletes_of_fresh fresh]
    · have different : name ≠ entry.1 := Ne.symm same
      simp [same, deletes_cons_of_ne different]
  rw [overlaidRules, overlaidRules, List.filter_cons, if_neg old,
    filter_new_congr fresh (fun _ => has_insert_of_ne) body,
    Entries.insert_of_mem distinct body known, List.filter_map, List.map_map, left]
  congr 1
  refine List.map_congr_left fun entry _ => ?_
  by_cases same : entry.1 = name
  · simp [same, overlaid, Entries.get?_eq_none_iff.mpr fresh, Entries.get?_cons_self]
  · have different : name ≠ entry.1 := Ne.symm same
    simp [same, overlaid_cons_of_ne different]

/-- Adding a rule first comes to the same. -/
theorem overlaidRules_append (fresh : name ∉ overlay.names) (given : body ≠ .null)
    (new : name ∉ rules.names) :
    overlaidRules (rules.insert name body) overlay =
      overlaidRules rules ((name, body) :: overlay) := by
  have added : (!deletes ((name, body) :: overlay) name && !rules.has name) = true := by
    simp [deletes_cons_self given, Bool.eq_false_iff.mpr (mt Entries.has_iff_mem_names.mp new)]
  have different : ∀ entry ∈ rules, name ≠ entry.1 := by
    rintro entry member rfl
    exact new (List.mem_map_of_mem member)
  have left : rules.filter (fun entry => !deletes overlay entry.1) =
      rules.filter fun entry => !deletes ((name, body) :: overlay) entry.1 :=
    List.filter_congr fun entry member => by rw [deletes_cons_of_ne (different entry member)]
  have right : (List.filter (fun entry => !deletes overlay entry.1) [(name, body)]).map
      (overlaid overlay) = [(name, body)] := by
    rw [List.filter_singleton, deletes_of_fresh fresh]
    exact congrArg (fun entry => [entry]) (overlaid_of_fresh fresh)
  rw [overlaidRules, overlaidRules, List.filter_cons, if_pos added,
    filter_new_congr fresh (fun _ => has_insert_of_ne) body,
    Entries.insert_of_not_mem body new, List.filter_append, List.map_append, right, left,
    List.append_assoc, List.singleton_append]
  congr 1
  refine List.map_congr_left fun entry member => ?_
  exact (overlaid_cons_of_ne (different entry (List.mem_of_mem_filter member))).symm

end Insertion

/-- Applying an overlay entry by entry gives what it makes of the rules at once. -/
theorem applyOverlay_eq (rulesDistinct : rules.Distinct) (distinct : overlay.Distinct) :
    applyOverlay rules overlay = overlaidRules rules overlay := by
  -- The first entry changes the rules that the others are applied to; each of the three ways in
  -- which it can do so is one of the lemmas above.
  induction overlay generalizing rules with
  | nil =>
    have unchanged : overlaid [] = id := rfl
    have nothing (entry : String × Json) : deletes [] entry.1 = false := rfl
    simp [applyOverlay, overlaidRules, unchanged, nothing]
  | cons entry rest inductionHypothesis =>
    obtain ⟨name, body⟩ := entry
    obtain ⟨fresh, others⟩ := List.nodup_cons.mp distinct
    change applyOverlay (applyEntry rules (name, body)) rest = _
    by_cases gone : body = .null
    · subst gone
      have remaining : (rules.erase name).Distinct :=
        rulesDistinct.sublist (List.filter_sublist.map Prod.fst)
      rw [← overlaidRules_erase fresh]
      exact inductionHypothesis remaining others
    · have inserted : overlaidRules (rules.insert name body) rest =
          overlaidRules rules ((name, body) :: rest) := by
        by_cases known : name ∈ rules.names
        · exact overlaidRules_replace rulesDistinct fresh gone known
        · exact overlaidRules_append fresh gone known
      have replaced : applyEntry rules (name, body) = rules.insert name body := by
        cases body with
        | null => contradiction
        | _ => rfl
      rw [replaced, ← inserted]
      exact inductionHypothesis (Entries.distinct_insert rulesDistinct name body) others

/-- Every name of a varied description is that of a remaining rule or of a new one. -/
theorem names_applyOverlay (rulesDistinct : rules.Distinct) (distinct : overlay.Distinct) :
    (applyOverlay rules overlay).names =
      (rules.names.filter fun name => !deletes overlay name)
        ++ overlay.names.filter fun name => !deletes overlay name && !rules.has name := by
  rw [applyOverlay_eq rulesDistinct distinct, overlaidRules, Entries.names, List.map_append,
    List.map_map, Entries.names, Entries.names, List.filter_map, List.filter_map]
  rfl

/-- The names of a varied description are those of the description and of the overlay that the
overlay does not take away. -/
theorem mem_names_applyOverlay (rulesDistinct : rules.Distinct) (distinct : overlay.Distinct)
    {name : String} :
    name ∈ (applyOverlay rules overlay).names ↔
      overlay.get? name ≠ some .null ∧ (name ∈ rules.names ∨ name ∈ overlay.names) := by
  rw [names_applyOverlay rulesDistinct distinct, List.mem_append, List.mem_filter, List.mem_filter,
    Bool.and_eq_true, Bool.not_eq_true', Bool.not_eq_true', Bool.eq_false_iff, Bool.eq_false_iff,
    ne_eq, ne_eq, deletes_iff, Entries.has_iff_mem_names]
  tauto

/-- A varied description names no rule twice. -/
theorem distinct_applyOverlay (rulesDistinct : rules.Distinct) (distinct : overlay.Distinct) :
    (applyOverlay rules overlay).Distinct := by
  rw [Entries.Distinct, names_applyOverlay rulesDistinct distinct]
  refine List.nodup_append'.mpr ⟨rulesDistinct.filter _, distinct.filter _, ?_⟩
  intro name old new
  have known := (List.mem_filter.mp old).1
  have fresh := (List.mem_filter.mp new).2
  simp [Entries.has_iff_mem_names.mpr known] at fresh

/-- A varied description holds the entries of which the overlay says nothing and those of the
overlay that have a body. -/
theorem mem_applyOverlay (rulesDistinct : rules.Distinct) (distinct : overlay.Distinct)
    {name : String} {value : Json} :
    (name, value) ∈ applyOverlay rules overlay ↔
      (name ∉ overlay.names ∧ (name, value) ∈ rules) ∨
        ((name, value) ∈ overlay ∧ value ≠ .null) := by
  rw [applyOverlay_eq rulesDistinct distinct, overlaidRules, List.mem_append, List.mem_map]
  simp only [List.mem_filter, Bool.and_eq_true, Bool.not_eq_true']
  have stays {body : Json} (member : (name, body) ∈ overlay) :
      deletes overlay name = false ↔ body ≠ .null := by
    have found := (Entries.get?_eq_some_iff distinct).mpr member
    rw [Bool.eq_false_iff, ne_eq, deletes_iff, found, Option.some_inj]
  constructor
  · rintro (⟨⟨other, old⟩, ⟨member, kept⟩, same⟩ | ⟨member, kept, -⟩)
    · obtain rfl : other = name := congrArg Prod.fst same
      by_cases fresh : other ∈ overlay.names
      · obtain ⟨⟨_, body⟩, changed, rfl⟩ := List.mem_map.mp fresh
        have found := (Entries.get?_eq_some_iff distinct).mpr changed
        obtain rfl : body = value := by simpa [overlaid, found] using same
        exact .inr ⟨changed, (stays changed).mp kept⟩
      · rw [overlaid_of_fresh fresh] at same
        exact .inl ⟨fresh, same ▸ member⟩
    · exact .inr ⟨member, (stays member).mp kept⟩
  · rintro (⟨fresh, member⟩ | ⟨member, given⟩)
    · exact .inl ⟨(name, value), ⟨member, deletes_of_fresh fresh⟩, overlaid_of_fresh fresh⟩
    · have kept := (stays member).mpr given
      by_cases known : rules.has name = true
      · obtain ⟨⟨_, old⟩, listed, rfl⟩ := List.mem_map.mp (Entries.has_iff_mem_names.mp known)
        have found := (Entries.get?_eq_some_iff distinct).mpr member
        exact .inl ⟨_, ⟨listed, kept⟩, by simp [overlaid, found]⟩
      · exact .inr ⟨member, kept, Bool.eq_false_iff.mpr known⟩

end Source

end GrammarView
