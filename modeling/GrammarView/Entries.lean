/-!
# Entries in order

Named values in the order in which their names first appeared. A grammar is such a list of rules,
a JSON object such a list of members, and the order is what decides the order of listings and of
diagrams.
-/

namespace GrammarView

/-- Named values in order. -/
abbrev Entries (α : Type) := List (String × α)

namespace Entries

variable {α : Type}

/-- The names, in order. -/
def names (entries : Entries α) : List String :=
  entries.map Prod.fst

/-- The value of a name, if it has one. -/
def get? (entries : Entries α) (name : String) : Option α :=
  (entries.find? (·.1 == name)).map Prod.snd

/-- Whether a name has a value. -/
def has (entries : Entries α) (name : String) : Bool :=
  entries.any (·.1 == name)

/-- Gives a name a value. A name that has a value already keeps its place, a new one comes
last. -/
def insert (name : String) (value : α) : Entries α → Entries α
  | [] => [(name, value)]
  | entry :: rest =>
    if entry.1 = name then (name, value) :: rest else entry :: insert name value rest

/-- Takes the value of a name away. -/
def erase (entries : Entries α) (name : String) : Entries α :=
  entries.filter (·.1 != name)

/-- No name occurs twice. -/
def Distinct (entries : Entries α) : Prop :=
  entries.names.Nodup

instance (entries : Entries α) : Decidable entries.Distinct :=
  inferInstanceAs (Decidable entries.names.Nodup)

/-- A value that is found under a name stands beside that name in the list. -/
theorem mem_of_get? {entries : Entries α} {name : String} {value : α}
    (found : entries.get? name = some value) : (name, value) ∈ entries := by
  obtain ⟨entry, hit, rfl⟩ := Option.map_eq_some_iff.mp found
  have same : entry.1 = name := by simpa using List.find?_some hit
  rw [← same]
  exact List.mem_of_find?_eq_some hit

/-- A name has a value exactly when it is one of the names. -/
theorem has_iff_mem_names {entries : Entries α} {name : String} :
    entries.has name = true ↔ name ∈ entries.names := by
  simp [has, names]

/-- Inserting a new name appends it. -/
theorem insert_of_not_mem {entries : Entries α} {name : String} (value : α)
    (fresh : name ∉ entries.names) : entries.insert name value = entries ++ [(name, value)] := by
  induction entries with
  | nil => rfl
  | cons entry rest inductionHypothesis =>
    simp only [names, List.map_cons, List.mem_cons, not_or] at fresh
    have different : entry.1 ≠ name := fun same => fresh.1 same.symm
    simp [insert, different, inductionHypothesis fresh.2]

/-- A name has no value exactly when it is none of the names. -/
theorem get?_eq_none_iff {entries : Entries α} {name : String} :
    entries.get? name = none ↔ name ∉ entries.names := by
  simp only [get?, Option.map_eq_none_iff, List.find?_eq_none, names, List.mem_map, beq_iff_eq]
  constructor
  · rintro other ⟨entry, member, same⟩
    exact other entry member same
  · intro absent entry member same
    exact absent ⟨entry, member, same⟩

/-- Where no name occurs twice, the value of a name is the one that stands beside it. -/
theorem get?_eq_some_iff {entries : Entries α} (distinct : entries.Distinct) {name : String}
    {value : α} : entries.get? name = some value ↔ (name, value) ∈ entries := by
  refine ⟨mem_of_get?, fun member => ?_⟩
  induction entries with
  | nil => contradiction
  | cons entry rest inductionHypothesis =>
    obtain ⟨fresh, others⟩ := List.nodup_cons.mp distinct
    rcases List.mem_cons.mp member with rfl | later
    · simp [get?]
    · have different : entry.1 ≠ name := by
        rintro rfl
        exact fresh (List.mem_map.mpr ⟨_, later, rfl⟩)
      have found := inductionHypothesis others later
      simpa [get?, different] using found

/-- A name has a value exactly when it is among the names. -/
theorem has_eq_contains {entries : Entries α} {name : String} :
    entries.has name = entries.names.contains name :=
  Bool.eq_iff_iff.mpr (has_iff_mem_names.trans List.contains_iff_mem.symm)

/-- The first entry does not count for another name. -/
theorem get?_cons_of_ne {rest : Entries α} {name other : String} {value : α}
    (different : name ≠ other) : get? ((name, value) :: rest) other = get? rest other := by
  simp [get?, different]

/-- The first entry counts for its own name. -/
theorem get?_cons_self {rest : Entries α} {name : String} {value : α} :
    get? ((name, value) :: rest) name = some value := by
  simp [get?]

/-- The names after inserting are those before it and the given one. -/
theorem mem_names_insert {entries : Entries α} {name other : String} {value : α} :
    other ∈ (entries.insert name value).names ↔ other = name ∨ other ∈ entries.names := by
  induction entries with
  | nil => simp [insert, names]
  | cons entry rest inductionHypothesis =>
    unfold insert
    split
    case isTrue same => simp [names, same]
    case isFalse =>
      change other ∈ entry.1 :: names (insert name value rest) ↔ _
      rw [List.mem_cons, inductionHypothesis]
      simp only [names, List.map_cons, List.mem_cons]
      exact or_left_comm

/-- What is inserted stands among the entries. -/
theorem mem_insert (entries : Entries α) (name : String) (value : α) :
    (name, value) ∈ entries.insert name value := by
  induction entries with
  | nil => exact .head _
  | cons entry rest inductionHypothesis =>
    unfold insert
    split
    case isTrue => exact .head _
    case isFalse => exact .tail _ inductionHypothesis

/-- Inserting keeps names distinct. -/
theorem distinct_insert {entries : Entries α} (distinct : entries.Distinct) (name : String)
    (value : α) : (entries.insert name value).Distinct := by
  induction entries with
  | nil => exact List.nodup_cons.mpr ⟨List.not_mem_nil, List.nodup_nil⟩
  | cons entry rest inductionHypothesis =>
    obtain ⟨fresh, others⟩ := List.nodup_cons.mp distinct
    unfold insert
    split
    case isTrue same => exact List.nodup_cons.mpr ⟨same ▸ fresh, others⟩
    case isFalse different =>
      refine List.nodup_cons.mpr ⟨?_, inductionHypothesis others⟩
      rintro inside
      rcases mem_names_insert.mp inside with same | later
      · exact different same
      · exact fresh later

/-- Inserting under a name that has a value changes its entry. -/
theorem insert_of_mem {entries : Entries α} (distinct : entries.Distinct) {name : String}
    (value : α) (known : name ∈ entries.names) :
    entries.insert name value =
      entries.map fun entry => if entry.1 = name then (name, value) else entry := by
  induction entries with
  | nil => contradiction
  | cons entry rest inductionHypothesis =>
    obtain ⟨fresh, others⟩ := List.nodup_cons.mp distinct
    by_cases same : entry.1 = name
    · have apart : ∀ later ∈ rest, (if later.1 = name then (name, value) else later) = later := by
        intro later member
        refine if_neg fun equal => fresh ?_
        exact List.mem_map.mpr ⟨later, member, equal.trans same.symm⟩
      have kept : rest.map (fun entry => if entry.1 = name then (name, value) else entry) = rest :=
        (List.map_congr_left apart).trans (List.map_id rest)
      simp [insert, same, kept]
    · have remaining : name ∈ names rest := by
        rcases List.mem_cons.mp known with rfl | later
        · exact absurd rfl same
        · exact later
      simp [insert, same, inductionHypothesis others remaining]

end Entries

end GrammarView
