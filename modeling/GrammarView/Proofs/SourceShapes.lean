import GrammarView.Proofs.Descriptions
import GrammarView.Proofs.WrittenJson

/-!
# The shape of a description

Which values describe a source, and which part of any other value is refused. The value itself, its
rules, its variations and each of these have to be objects, and the first part that is none is
named. One gap is left: variations that hold nothing are taken for none before anybody asks whether
they are an object, so a false, a zero, an empty text and an empty array stand for no variations.
-/

namespace GrammarView.Source

/-- Whether a value is an object. -/
def IsObject (value : Json) : Prop :=
  ∃ members, value = .obj members

/-- The values that hold nothing, apart from null and from objects. -/
inductive Hollow : Json → Prop where
  | no : Hollow (.bool false)
  | int : Hollow (.int 0)
  | real {value} (zero : (value == 0.0) = true) : Hollow (.real value)
  | str : Hollow (.str "")
  | arr : Hollow (.arr [])

/-- The values of the documented shape, with the source that each of them describes. -/
inductive Describes : Json → Source → Prop where
  /-- The members are rules when none of them has the name under which rules are looked up. -/
  | rules {members : Entries Json} (bare : members.get? "rules" = none) :
      Describes (.obj members) ⟨members, []⟩
  | unvaried {members rules : Entries Json} (given : members.get? "rules" = some (.obj rules))
      (none : members.get? "variations" = none ∨ members.get? "variations" = some .null) :
      Describes (.obj members) ⟨rules, []⟩
  | varied {members rules : Entries Json} {variations : Entries (Entries Json)}
      (given : members.get? "rules" = some (.obj rules))
      (overlays : members.get? "variations" = some (.obj (asMembers variations))) :
      Describes (.obj members) ⟨rules, variations⟩

/-- The values whose variations are of a wrong type but hold nothing, with their rules. -/
inductive Overlooks : Json → Source → Prop where
  | intro {members rules : Entries Json} {part : Json}
      (given : members.get? "rules" = some (.obj rules))
      (varied : members.get? "variations" = some part) (hollow : Hollow part) :
      Overlooks (.obj members) ⟨rules, []⟩

/-- The first part of a value that has to be an object and is none. -/
inductive Blames : Json → Place → Json → Prop where
  | grammar {value} (other : ¬ IsObject value) : Blames value .grammar value
  | rules {members : Entries Json} {part : Json} (given : members.get? "rules" = some part)
      (other : ¬ IsObject part) : Blames (.obj members) .rules part
  | variations {members rules : Entries Json} {part : Json}
      (given : members.get? "rules" = some (.obj rules))
      (varied : members.get? "variations" = some part) (other : ¬ IsObject part)
      (filled : part ≠ .null ∧ ¬ Hollow part) : Blames (.obj members) .variations part
  | variation {members rules after : Entries Json} {before : Entries (Entries Json)}
      {name : String} {part : Json}
      (given : members.get? "rules" = some (.obj rules))
      (varied : members.get? "variations" = some (.obj (asMembers before ++ (name, part) :: after)))
      (other : ¬ IsObject part) : Blames (.obj members) (.variation name) part

section Parts

variable {part : Json}

/-- A value of another type is refused by the name of its type. -/
theorem membersOf_of_not_isObject (place : Place) (other : ¬ IsObject part) :
    membersOf place part = .error (.notObject place part.typeName) := by
  cases part with
  | obj members => exact absurd ⟨members, rfl⟩ other
  | _ => rfl

/-- A value holds nothing when it is null, one of the values that are of a wrong type, or an object
without members. -/
theorem isEmpty_iff : part.isEmpty = true ↔ part = .null ∨ Hollow part ∨ part = .obj [] := by
  constructor
  · intro empty
    cases part with
    | null => exact .inl rfl
    | bool value =>
      cases value with
      | false => exact .inr (.inl .no)
      | true => contradiction
    | int value =>
      obtain rfl : value = 0 := by simpa [Json.isEmpty] using empty
      exact .inr (.inl .int)
    | real value => exact .inr (.inl (.real empty))
    | str value =>
      obtain rfl : value = "" := by simpa [Json.isEmpty] using empty
      exact .inr (.inl .str)
    | arr items =>
      obtain rfl : items = [] := List.isEmpty_iff.mp empty
      exact .inr (.inl .arr)
    | obj members =>
      obtain rfl : members = [] := List.isEmpty_iff.mp empty
      exact .inr (.inr rfl)
  · rintro (rfl | hollow | rfl)
    · rfl
    · cases hollow with
      | real zero => exact zero
      | _ => rfl
    · rfl

/-- The members of an object are overlays, or there is a first one that is none. -/
theorem overlays_or_first (members : Entries Json) :
    (∃ variations, members = asMembers variations) ∨
      ∃ before name part after,
        members = asMembers before ++ (name, part) :: after ∧ ¬ IsObject part := by
  induction members with
  | nil => exact .inl ⟨[], rfl⟩
  | cons member rest inductionHypothesis =>
    obtain ⟨name, part⟩ := member
    by_cases object : IsObject part
    · obtain ⟨overlay, rfl⟩ := object
      rcases inductionHypothesis with ⟨variations, rfl⟩ | ⟨before, next, part, after, rfl, other⟩
      · exact .inl ⟨(name, overlay) :: variations, rfl⟩
      · exact .inr ⟨(name, overlay) :: before, next, part, after, rfl, other⟩
    · exact .inr ⟨[], name, part, rest, rfl, object⟩

/-- The first variation that is no object is refused. -/
theorem overlaysOf_first (before : Entries (Entries Json)) (name : String) (after : Entries Json)
    (other : ¬ IsObject part) :
    overlaysOf (asMembers before ++ (name, part) :: after)
      = .error (.notObject (.variation name) part.typeName) := by
  induction before with
  | nil =>
    have refused := membersOf_of_not_isObject (.variation name) other
    simp [overlaysOf, asMembers, refused, bind, Except.bind]
  | cons variation before inductionHypothesis =>
    rw [asMembers] at inductionHypothesis
    simp [overlaysOf, membersOf, asMembers, inductionHypothesis, bind, Except.bind]

end Parts

section Outcomes

variable {value part : Json} {members rules : Entries Json} {source : Source} {place : Place}

/-- What becomes of an object whose rules are an object is decided by its variations. -/
theorem ofJson_of_rules (given : members.get? "rules" = some (.obj rules)) :
    ofJson (.obj members) =
      let variations := (members.get? "variations").getD .null
      if variations.isEmpty then .ok ⟨rules, []⟩
      else (membersOf .variations variations >>= overlaysOf).map (⟨rules, ·⟩) := by
  have taken (place : Place) (inner : Entries Json) :
      membersOf place (.obj inner) = .ok inner := rfl
  simp only [ofJson, taken, given, bind, Except.bind, pure, Except.pure]
  split
  · rfl
  · cases membersOf .variations ((members.get? "variations").getD .null) with
    | error => rfl
    | ok variations => cases overlaysOf variations <;> rfl

/-- A value of the documented shape is taken for the source that it describes. -/
theorem Describes.ofJson (describes : Describes value source) : ofJson value = .ok source := by
  cases describes with
  | rules bare => exact ofJson_rules (Entries.get?_eq_none_iff.mp bare)
  | unvaried given none =>
    rw [ofJson_of_rules given]
    rcases none with absent | null
    · rw [absent]
      rfl
    · rw [null]
      rfl
  | @varied _ rules variations given overlays =>
    rw [ofJson_of_rules given, overlays]
    cases variations with
    | nil => rfl
    | cons variation others =>
      have taken := overlaysOf_asMembers (variation :: others)
      change (overlaysOf (asMembers (variation :: others))).map _ = _
      rw [taken]
      rfl

/-- Variations that hold nothing are taken for none, whatever their type is. -/
theorem Overlooks.ofJson (overlooks : Overlooks value source) : ofJson value = .ok source := by
  obtain ⟨given, varied, hollow⟩ := overlooks
  rw [ofJson_of_rules given, varied]
  exact if_pos (isEmpty_iff.mpr (.inr (.inl hollow)))

/-- The first part that is no object is refused. -/
theorem Blames.ofJson (blames : Blames value place part) :
    ofJson value = .error (.notObject place part.typeName) := by
  cases blames with
  | grammar other =>
    rw [Source.ofJson, membersOf_of_not_isObject .grammar other]
    rfl
  | rules given other =>
    have refused := membersOf_of_not_isObject .rules other
    simp [Source.ofJson, membersOf.eq_1, given, refused, bind, Except.bind]
  | variations given varied other filled =>
    have some : ¬ part.isEmpty = true := by
      rw [isEmpty_iff]
      rintro (null | hollow | rfl)
      · exact filled.1 null
      · exact filled.2 hollow
      · exact other ⟨[], rfl⟩
    rw [ofJson_of_rules given, varied]
    simp only [Option.getD_some, if_neg some, membersOf_of_not_isObject .variations other]
    rfl
  | @variation _ _ after before name _ given varied other =>
    rw [ofJson_of_rules given, varied]
    have some : ¬ (Json.obj (asMembers before ++ (name, part) :: after)).isEmpty = true := by
      simp [Json.isEmpty]
    simp only [Option.getD_some, if_neg some]
    change (overlaysOf (asMembers before ++ (name, part) :: after)).map _ = _
    rw [overlaysOf_first before name after other]
    rfl

/-- Every value has the documented shape, or its variations are overlooked, or one of its parts is
to blame. -/
theorem described_or_blamed (value : Json) :
    (∃ source, Describes value source) ∨ (∃ source, Overlooks value source) ∨
      ∃ place part, Blames value place part := by
  by_cases object : IsObject value
  case neg => exact .inr (.inr ⟨_, _, .grammar object⟩)
  obtain ⟨(members : Entries Json), rfl⟩ := object
  cases given : members.get? "rules" with
  | none => exact .inl ⟨_, .rules given⟩
  | some part =>
    by_cases rulesObject : IsObject part
    case neg => exact .inr (.inr ⟨_, _, .rules given rulesObject⟩)
    obtain ⟨rules, rfl⟩ := rulesObject
    cases varied : members.get? "variations" with
    | none => exact .inl ⟨_, .unvaried given (.inl varied)⟩
    | some part =>
      by_cases variationsObject : IsObject part
      case neg =>
        by_cases null : part = .null
        · exact .inl ⟨_, .unvaried given (.inr (null ▸ varied))⟩
        by_cases hollow : Hollow part
        · exact .inr (.inl ⟨_, .intro given varied hollow⟩)
        · exact .inr (.inr ⟨_, _, .variations given varied variationsObject ⟨null, hollow⟩⟩)
      obtain ⟨variations, rfl⟩ := variationsObject
      rcases overlays_or_first variations with ⟨overlays, rfl⟩ | ⟨_, _, _, _, rfl, other⟩
      · exact .inl ⟨_, .varied given varied⟩
      · exact .inr (.inr ⟨_, _, .variation given varied other⟩)

/-- The sources that values are taken for. -/
theorem ofJson_eq_ok :
    ofJson value = .ok source ↔ Describes value source ∨ Overlooks value source := by
  constructor
  · intro taken
    rcases described_or_blamed value with ⟨other, describes⟩ | ⟨other, overlooks⟩ | ⟨_, _, blames⟩
    · cases describes.ofJson.symm.trans taken
      exact .inl describes
    · cases overlooks.ofJson.symm.trans taken
      exact .inr overlooks
    · cases blames.ofJson.symm.trans taken
  · rintro (describes | overlooks)
    · exact describes.ofJson
    · exact overlooks.ofJson

/-- The reasons for which values are refused. -/
theorem ofJson_eq_error {fault : Fault} : ofJson value = .error fault ↔
    ∃ place part, Blames value place part ∧ fault = .notObject place part.typeName := by
  constructor
  · intro refused
    rcases described_or_blamed value with ⟨_, describes⟩ | ⟨_, overlooks⟩ | ⟨place, part, blames⟩
    · cases describes.ofJson.symm.trans refused
    · cases overlooks.ofJson.symm.trans refused
    · cases blames.ofJson.symm.trans refused
      exact ⟨place, part, blames, rfl⟩
  · rintro ⟨place, part, blames, rfl⟩
    exact blames.ofJson

end Outcomes

/-- A text that spells a value is read as a source exactly when the value has the documented shape,
and then as the source that it describes, or when its variations are of a wrong type but hold
nothing, and then as its rules without variations. In every other case the first part that is no
object is refused by its name and its type. -/
theorem described_sources_read {text : List Char} {value : Json}
    (spells : Json.read text = .ok value) :
    (∀ source, readJson text = .ok source ↔ Describes value source ∨ Overlooks value source) ∧
      ∀ fault, readJson text = .error fault ↔
        ∃ place part, Blames value place part ∧ fault = .notObject place part.typeName := by
  have same : readJson text = ofJson value := by rw [readJson, spells]
  exact ⟨fun source => same ▸ ofJson_eq_ok, fun fault => same ▸ ofJson_eq_error⟩

/-- A description without rules, with a variation that changes nothing and a text among the
variations. -/
def textVariation : Entries Json :=
  [("rules", .obj []), ("variations", .obj [("v", .obj []), ("w", .str "")])]

/-- A text among the variations is refused also when it is empty. -/
theorem empty_text_among_variations_refused :
    Json.read "\x7b\"rules\":\x7b\x7d,\"variations\":\x7b\"v\":\x7b\x7d,\"w\":\"\"\x7d\x7d".toList
        = .ok (.obj textVariation) ∧
      readJson "\x7b\"rules\":\x7b\x7d,\"variations\":\x7b\"v\":\x7b\x7d,\"w\":\"\"\x7d\x7d".toList
        = .error (.notObject (.variation "w") "str") := by
  have spells : Json.read
      "\x7b\"rules\":\x7b\x7d,\"variations\":\x7b\"v\":\x7b\x7d,\"w\":\"\"\x7d\x7d".toList
      = .ok (.obj textVariation) := by cbv
  have given : textVariation.get? "rules" = some (.obj []) := by cbv
  have varied : textVariation.get? "variations"
      = some (.obj (asMembers [("v", [])] ++ ("w", .str "") :: [])) := by cbv
  have other : ¬ IsObject (.str "") := by
    rintro ⟨members, same⟩
    contradiction
  have blames : Blames (.obj textVariation) (.variation "w") (.str "") :=
    .variation given varied other
  exact ⟨spells, ((described_sources_read spells).2 _).mpr ⟨_, _, blames, rfl⟩⟩

/-- An empty array is read as no variations, though it is no object. -/
theorem empty_array_read_as_no_variations :
    Json.read "\x7b\"rules\": \x7b\x7d, \"variations\": []\x7d".toList
        = .ok (.obj [("rules", .obj []), ("variations", .arr [])]) ∧
      readJson "\x7b\"rules\": \x7b\x7d, \"variations\": []\x7d".toList = .ok ⟨[], []⟩ ∧
      ∀ source, ¬ Describes (.obj [("rules", .obj []), ("variations", .arr [])]) source := by
  refine ⟨by cbv, by cbv, ?_⟩
  intro source describes
  cases describes with
  | rules bare => cases bare
  | unvaried given none => rcases none with absent | null <;> simp [Entries.get?] at *
  | varied given overlays => cases overlays

end GrammarView.Source
