import GrammarView.Proofs.Overlays

/-!
# What an overlay edits

An overlay says of some names that they go or which body they get, and of all others nothing. The
varied rules are told by this alone, name by name and in their order, so applying the overlay once
more changes nothing. Mappings are passed on by their places, and a change at a place is seen by
everyone who knows it; an overlay is applied to a copy, so that no mapping changes which was there
before.
-/

namespace GrammarView

namespace Source

variable {rules overlay varied : Entries Json}

/-- What rules are that have been varied by an overlay. -/
structure Varied (rules overlay varied : Entries Json) : Prop where
  /-- No rule is there twice. -/
  distinct : varied.Distinct
  /-- A name that the overlay takes away has no body, one to which it gives a body has that one, and
  any other keeps its own. -/
  bodies : ∀ name, varied.get? name =
    match overlay.get? name with
    | some .null => none
    | some body => some body
    | none => rules.get? name
  /-- The remaining names stand as they stood, and behind them the new ones as in the overlay. -/
  order : varied.names =
    (rules.names.filter fun name => !deletes overlay name) ++
      overlay.names.filter fun name => !deletes overlay name && !rules.has name

/-- The body of a name after an overlay has been applied. -/
theorem get?_applyOverlay (rulesDistinct : rules.Distinct) (distinct : overlay.Distinct)
    (name : String) :
    (applyOverlay rules overlay).get? name =
      match overlay.get? name with
      | some .null => none
      | some body => some body
      | none => rules.get? name := by
  have outcome := distinct_applyOverlay rulesDistinct distinct
  cases said : overlay.get? name with
  | none =>
    have unnamed := Entries.get?_eq_none_iff.mp said
    cases found : rules.get? name with
    | none =>
      have unknown := Entries.get?_eq_none_iff.mp found
      rw [Entries.get?_eq_none_iff, mem_names_applyOverlay rulesDistinct distinct]
      rintro ⟨-, known | named⟩
      · exact unknown known
      · exact unnamed named
    | some body =>
      rw [Entries.get?_eq_some_iff outcome, mem_applyOverlay rulesDistinct distinct]
      exact .inl ⟨unnamed, Entries.mem_of_get? found⟩
  | some body =>
    by_cases gone : body = .null
    · subst gone
      rw [Entries.get?_eq_none_iff, mem_names_applyOverlay rulesDistinct distinct]
      exact fun remains => remains.1 said
    · have given : (applyOverlay rules overlay).get? name = some body := by
        rw [Entries.get?_eq_some_iff outcome, mem_applyOverlay rulesDistinct distinct]
        exact .inr ⟨Entries.mem_of_get? said, gone⟩
      cases body with
      | null => contradiction
      | _ => exact given

/-- Applying an overlay makes the varied rules. -/
theorem varied_applyOverlay (rulesDistinct : rules.Distinct) (distinct : overlay.Distinct) :
    Varied rules overlay (applyOverlay rules overlay) where
  distinct := distinct_applyOverlay rulesDistinct distinct
  bodies := get?_applyOverlay rulesDistinct distinct
  order := names_applyOverlay rulesDistinct distinct

/-- An entry that the overlay has left or made is not changed by it again. -/
theorem settled_of_mem (rulesDistinct : rules.Distinct) (distinct : overlay.Distinct)
    {entry : String × Json} (member : entry ∈ applyOverlay rules overlay) :
    deletes overlay entry.1 = false ∧ overlaid overlay entry = entry := by
  rcases (mem_applyOverlay rulesDistinct distinct).mp member with ⟨unnamed, -⟩ | ⟨named, given⟩
  · exact ⟨deletes_of_fresh unnamed, overlaid_of_fresh unnamed⟩
  · have said := (Entries.get?_eq_some_iff distinct).mpr named
    refine ⟨?_, by rw [overlaid, said, Option.getD_some]⟩
    rw [Bool.eq_false_iff, ne_eq, deletes_iff, said, Option.some_inj]
    exact given

/-- An overlay that is applied once more changes nothing. -/
theorem applyOverlay_applyOverlay (rulesDistinct : rules.Distinct) (distinct : overlay.Distinct) :
    applyOverlay (applyOverlay rules overlay) overlay = applyOverlay rules overlay := by
  have settled {entry : String × Json} (member : entry ∈ applyOverlay rules overlay) :=
    settled_of_mem rulesDistinct distinct member
  have remaining : (applyOverlay rules overlay).filter (fun entry => !deletes overlay entry.1) =
      applyOverlay rules overlay :=
    List.filter_eq_self.mpr fun entry member => by rw [(settled member).1, Bool.not_false]
  have unchanged : (applyOverlay rules overlay).map (overlaid overlay) =
      applyOverlay rules overlay :=
    (List.map_congr_left fun entry member => (settled member).2).trans (List.map_id _)
  -- A name of the overlay that is not taken away has been put in before.
  have nothingNew : overlay.filter (fun entry =>
      !deletes overlay entry.1 && !(applyOverlay rules overlay).has entry.1) = [] := by
    refine List.filter_eq_nil_iff.mpr fun entry member new => ?_
    rw [Bool.and_eq_true, Bool.not_eq_true', Bool.not_eq_true', Bool.eq_false_iff,
      Bool.eq_false_iff, ne_eq, ne_eq, deletes_iff, Entries.has_iff_mem_names,
      mem_names_applyOverlay rulesDistinct distinct] at new
    exact new.2 ⟨new.1, .inr (List.mem_map_of_mem member)⟩
  calc applyOverlay (applyOverlay rules overlay) overlay
    _ = overlaidRules (applyOverlay rules overlay) overlay :=
      applyOverlay_eq (distinct_applyOverlay rulesDistinct distinct) distinct
    _ = applyOverlay rules overlay := by
      rw [overlaidRules, remaining, unchanged, nothingNew, List.append_nil]

/-- Mappings by their places. -/
abbrev Mappings := List (Entries Json)

namespace Mappings

/-- Applies one entry of an overlay to the mapping at a place. -/
def edit (place : Nat) (mappings : Mappings) (entry : String × Json) : Mappings :=
  mappings.modify place (applyEntry · entry)

/-- Applies the overlay at one place to the rules at another: these are copied behind all mappings,
and the copy is edited entry by entry. -/
def vary (mappings : Mappings) (rules overlay : Nat) : Mappings :=
  (mappings.getD overlay []).foldl (edit mappings.length)
    (mappings ++ [mappings.getD rules []])

/-- Editing the last mapping leaves the others as they are. -/
theorem edit_last (mappings : Mappings) (rules : Entries Json) (entry : String × Json) :
    edit mappings.length (mappings ++ [rules]) entry = mappings ++ [applyEntry rules entry] := by
  have last : mappings.length < (mappings ++ [rules]).length := by simp
  rw [edit, List.modify_eq_take_cons_drop last]
  simp

/-- So does editing it with all entries of an overlay. -/
theorem foldl_edit_last (mappings : Mappings) (rules overlay : Entries Json) :
    overlay.foldl (edit mappings.length) (mappings ++ [rules]) =
      mappings ++ [applyOverlay rules overlay] := by
  induction overlay generalizing rules with
  | nil => rfl
  | cons entry rest inductionHypothesis =>
    rw [List.foldl_cons, edit_last, inductionHypothesis]
    rfl

/-- The varied rules come behind all mappings that were there. -/
theorem vary_eq {mappings : Mappings} {base changes : Nat}
    (rulesThere : mappings[base]? = some rules) (overlayThere : mappings[changes]? = some overlay) :
    mappings.vary base changes = mappings ++ [applyOverlay rules overlay] := by
  rw [vary, List.getD_eq_getElem?_getD, List.getD_eq_getElem?_getD, rulesThere, overlayThere]
  exact foldl_edit_last mappings rules overlay

end Mappings

/-- An overlay edits exactly the rules that it names: the names that it takes away go, those to
which it gives a body have it, and all others stay as they are, each in its place and the new ones
behind them. To apply it once more changes nothing, and no mapping is changed that was there
before. -/
theorem overlay_edits_named_rules (rulesDistinct : rules.Distinct) (distinct : overlay.Distinct) :
    Varied rules overlay (applyOverlay rules overlay) ∧
      applyOverlay (applyOverlay rules overlay) overlay = applyOverlay rules overlay ∧
      ∀ (mappings : Mappings) (base changes : Nat), mappings[base]? = some rules →
        mappings[changes]? = some overlay →
          mappings.vary base changes = mappings ++ [applyOverlay rules overlay] :=
  ⟨varied_applyOverlay rulesDistinct distinct, applyOverlay_applyOverlay rulesDistinct distinct,
    fun _ _ _ => Mappings.vary_eq⟩

/-- Letters, which are digits and words too. -/
def letterRules : Entries Json :=
  [("letter", .obj [("choice", .arr [.str "upper", .str "lower"])]),
    ("upper", .obj [("terminal", .str "A to Z")]), ("lower", .obj [("terminal", .str "a to z")]),
    ("mark", .null)]

/-- An overlay that puts accents in, replaces a rule, and takes away two, one of them unknown. -/
def accents : Entries Json :=
  [("accent", .obj [("tokens", .arr [.str "grave", .str "acute"])]), ("upper", .null),
    ("unknown", .null), ("letter", .obj [("sequence", .arr [.str "lower", .str "accent"])])]

/-- Accented letters: what is said of all overlays, at one that deletes, replaces and adds. -/
theorem accents_edit_letters :
    letterRules.Distinct ∧ accents.Distinct ∧
      Varied letterRules accents (applyOverlay letterRules accents) ∧
      (applyOverlay letterRules accents).names = ["letter", "lower", "mark", "accent"] ∧
      applyOverlay (applyOverlay letterRules accents) accents = applyOverlay letterRules accents ∧
      Mappings.vary [accents, letterRules] 1 0 =
        [accents, letterRules, applyOverlay letterRules accents] := by
  have letters : letterRules.Distinct := by decide
  have distinct : accents.Distinct := by decide
  obtain ⟨varied, again, kept⟩ := overlay_edits_named_rules letters distinct
  exact ⟨letters, distinct, varied, by decide, again, kept [accents, letterRules] 1 0 rfl rfl⟩

end Source

end GrammarView
