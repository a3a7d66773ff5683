import GrammarView.Proofs.MarkupReader

/-!
# Reading written markup

What the plain reader makes of written trees: the same trees. Texts that stand side by side cannot
be told apart when they are written, whether they were escaped or had nothing to escape, and an
empty text cannot be seen, so trees are compared after texts are joined.
-/

namespace GrammarView.Markup

/-- A tree in front of others. A text is joined with a text after it, and an empty one left out. -/
def joinTo : Markup → List Markup → List Markup
  | .text first, .text second :: rest => .text (first ++ second) :: rest
  | .text content, rest => if content = "" then rest else .text content :: rest
  | tree, rest => tree :: rest

mutual

/-- The tree with texts joined. What is written as it is counts as a text. -/
def joined : Markup → Markup
  | .text content | .written content => .text content
  | .element name attributes children => .element name attributes (joinedAll children)

/-- The trees with texts joined, their own and those inside them. -/
def joinedAll : List Markup → List Markup
  | [] => []
  | tree :: rest => joinTo (joined tree) (joinedAll rest)

end

mutual

/-- The pieces that a tree is spelled with. -/
def parts : Markup → List Piece
  | .text content => [.text content]
  | .written content => [.text content]
  | .element name attributes children =>
    if children.isEmpty then [.empty ⟨name, attributes⟩]
    else .opening ⟨name, attributes⟩ :: partsOfAll children ++ [.closing name]

/-- The pieces that trees are spelled with, one after the other. -/
def partsOfAll : List Markup → List Piece
  | [] => []
  | tree :: rest => parts tree ++ partsOfAll rest

end

/-- Trees of texts, of characters that have not to be escaped, and of elements whose names can be
told from what stands around them. -/
inductive Named : Markup → Prop where
  | text {content} : Named (.text content)
  | written {content} (plain : IsPlain content) : Named (.written content)
  | element {name attributes children} (isName : IsName name) (keyed : Keyed attributes)
      (inside : ∀ child ∈ children, Named child) : Named (.element name attributes children)

section Joining

variable {tree : Markup} {trees rest : List Markup}

/-- An empty text is left out. -/
@[simp]
theorem joinTo_empty (rest : List Markup) : joinTo (.text "") rest = rest := by
  unfold joinTo
  split <;> simp_all

/-- Texts are joined from either side. -/
theorem joinTo_text (first second : String) (rest : List Markup) :
    joinTo (.text first) (joinTo (.text second) rest) = joinTo (.text (first ++ second)) rest := by
  by_cases isEmpty : second = ""
  · simp [isEmpty]
  · match rest with
    | .text third :: rest => simp [joinTo, String.append_assoc]
    | [] | .written _ :: _ | .element _ _ _ :: _ => simp [joinTo, isEmpty]

/-- Only an empty text in front of nothing is nothing. -/
theorem joinTo_eq_nil_iff : joinTo tree rest = [] ↔ tree = .text "" ∧ rest = [] := by
  unfold joinTo
  split <;> grind

/-- What is so of every text and of trees is so of the trees when texts are joined. -/
theorem forall_mem_joinTo {holds : Markup → Prop} (text : ∀ content, holds (.text content))
    (first : holds tree) (others : ∀ other ∈ rest, holds other) :
    ∀ other ∈ joinTo tree rest, holds other := by
  unfold joinTo
  split
  case h_1 => exact List.forall_mem_cons.mpr ⟨text _, (List.forall_mem_cons.mp others).2⟩
  case h_2 =>
    split
    case isTrue => exact others
    case isFalse => exact List.forall_mem_cons.mpr ⟨text _, others⟩
  case h_3 => exact List.forall_mem_cons.mpr ⟨first, others⟩

/-- What is so of every text and of each of several joined trees is so of the trees when they are
joined. -/
theorem forall_mem_joinedAll {holds : Markup → Prop} (text : ∀ content, holds (.text content))
    (each : ∀ tree ∈ trees, holds (joined tree)) : ∀ tree ∈ joinedAll trees, holds tree := by
  induction trees with
  | nil => exact fun _ absent => nomatch absent
  | cons tree rest inductionHypothesis =>
    obtain ⟨first, others⟩ := List.forall_mem_cons.mp each
    rw [joinedAll]
    exact forall_mem_joinTo text first (inductionHypothesis others)

/-- A named tree is written as nothing only if it is an empty text. -/
theorem Named.writeTree_eq_nil_iff (named : Named tree) :
    writeTree tree = [] ↔ Markup.joined tree = .text "" := by
  cases named with
  | text => simp [writeTree, Markup.joined, escape_eq_nil_iff]
  | written => simp [writeTree, Markup.joined]
  | element =>
    simp only [writeTree, enclose, Markup.joined]
    split <;> simp

/-- Trees are written as nothing only if nothing is left of them when texts are joined. -/
theorem writeTrees_eq_nil_iff (named : ∀ tree ∈ trees, Named tree) :
    writeTrees trees = [] ↔ joinedAll trees = [] := by
  induction trees with
  | nil => simp [writeTrees, joinedAll]
  | cons tree rest inductionHypothesis =>
    obtain ⟨first, others⟩ := List.forall_mem_cons.mp named
    rw [writeTrees, joinedAll, List.append_eq_nil_iff, joinTo_eq_nil_iff,
      first.writeTree_eq_nil_iff, inductionHypothesis others]

end Joining

section Spelling

variable {tree : Markup} {trees : List Markup}

/-- A text in front of trees adds its piece, unless it is joined to another one. -/
theorem partsOfAll_joinTo_element (content name : String) (attributes : List (String × String))
    (children rest : List Markup) :
    partsOfAll (joinTo (.text content) (.element name attributes children :: rest))
      = Piece.texts content.toList ++ parts (.element name attributes children)
        ++ partsOfAll rest := by
  by_cases isEmpty : content = ""
  · simp [joinTo, partsOfAll, Piece.texts, isEmpty]
  · simp [joinTo, partsOfAll, Piece.texts, isEmpty, parts.eq_1]

/-- Taking the pieces of a tree one by one adds the tree. -/
def IsTaken (tree : Markup) : Prop :=
  ∀ progress, (parts tree).foldlM Progress.take progress = some (progress.add tree)

/-- Taking the pieces of trees one by one adds the trees, if it does so for each of them. -/
theorem take_partsOfAll (each : ∀ tree ∈ trees, IsTaken tree) (around : List Level)
    (content : List Markup) :
    (partsOfAll trees).foldlM Progress.take ⟨around, content⟩
      = some ⟨around, content ++ trees⟩ := by
  induction trees generalizing content with
  | nil => simp [partsOfAll]
  | cons tree rest inductionHypothesis =>
    obtain ⟨first, others⟩ := List.forall_mem_cons.mp each
    rw [partsOfAll, List.foldlM_append, first, Option.bind_eq_bind, Option.bind_some,
      Progress.add, inductionHypothesis others, List.append_assoc, List.singleton_append]

/-- Taking the piece of a text adds the text. -/
theorem isTaken_text (content : String) : IsTaken (.text content) :=
  fun _ => rfl

/-- Taking the pieces of a named tree one by one adds the tree, with its texts joined. -/
theorem Named.isTaken (named : Named tree) : IsTaken (Markup.joined tree) := by
  induction named with
  | text | written => exact isTaken_text _
  | @element name attributes children _ _ _ inductionHypothesis =>
    have inside : ∀ child ∈ joinedAll children, IsTaken child :=
      forall_mem_joinedAll isTaken_text inductionHypothesis
    intro progress
    rw [Markup.joined, parts]
    split
    case isTrue isEmpty =>
      rw [List.isEmpty_iff.mp isEmpty]
      rfl
    case isFalse =>
      simp [Progress.take, take_partsOfAll inside, Progress.add]

/-- Written trees spell their pieces, whatever text has been collected before them. -/
def Spells (trees : List Markup) : Prop :=
  ∀ before tail, EndsText tail →
    (⟨.text, escape before⟩ : Reader).pieces (writeTrees trees ++ tail)
      = ((Place.enter .text).pieces tail).map
        (partsOfAll (joinTo (.text before) (joinedAll trees)) ++ ·)

/-- Written trees spell their pieces where no text has been collected. -/
theorem Spells.start (spells : Spells trees) {tail : List Char} (ends : EndsText tail) :
    (Place.enter .text).pieces (writeTrees trees ++ tail)
      = ((Place.enter .text).pieces tail).map (partsOfAll (joinedAll trees) ++ ·) := by
  have spelled := spells "" tail ends
  rw [joinTo_empty] at spelled
  exact spelled

/-- Nothing spells nothing. -/
theorem Spells.nil : Spells [] := by
  intro before tail ends
  rw [writeTrees, List.nil_append, pieces_text before ends, joinedAll]
  congr
  funext
  by_cases isEmpty : before = "" <;> simp [joinTo, partsOfAll, parts, Piece.texts, isEmpty]

/-- A text is collected with the text before it. -/
theorem Spells.text (others : Spells trees) (content : String) :
    Spells (.text content :: trees) := by
  intro before tail ends
  have collects : ∀ character ∈ escape content, Place.text.collects character = true :=
    fun character => collects_of_mem_escape
  have together : escape before ++ escape content = escape (before ++ content) := by
    simp [escape]
  rw [writeTrees, writeTree, List.append_assoc, passes_collected collects, together,
    others (before ++ content) tail ends, joinedAll, joined, joinTo_text]
  simp [Function.comp_def]

/-- What is written as it is is collected like a text. -/
theorem Spells.written (others : Spells trees) {content : String} (plain : IsPlain content) :
    Spells (.written content :: trees) := by
  have same : writeTrees (.written content :: trees) = writeTrees (.text content :: trees) := by
    rw [writeTrees, writeTrees, writeTree, writeTree, plain.escape_eq]
  intro before tail ends
  rw [same]
  exact others.text content before tail ends

/-- A written element is passed, and completes the pieces that it is spelled with. -/
theorem passes_element {name : String} {attributes : List (String × String)}
    {children : List Markup} (isName : IsName name)
    (keyed : Keyed attributes) (named : ∀ child ∈ children, Named child)
    (inside : Spells children) :
    Passes (Place.enter .text) (enclose name attributes (writeTrees children))
      (Place.enter .text) (parts (.element name attributes (joinedAll children))) := by
  simp only [enclose, parts, List.isEmpty_iff, writeTrees_eq_nil_iff named]
  split
  case isTrue => exact passes_empty isName keyed
  case isFalse =>
    have content : Passes (Place.enter .text)
        (writeTrees children ++ ('<' :: '/' :: name.toList ++ ['>'])) (Place.enter .text)
        (partsOfAll (joinedAll children) ++ [.closing name]) := by
      intro rest
      have closing : EndsText ('<' :: '/' :: name.toList ++ ['>'] ++ rest) := .inr ⟨_, rfl⟩
      rw [List.append_assoc, inside.start closing, passes_closing isName, Option.map_map]
      simp [Function.comp_def]
    simpa using (passes_opening isName keyed).trans content

/-- An element is spelled after the text before it. -/
theorem Spells.element {name : String} {attributes : List (String × String)}
    {children : List Markup} (others : Spells trees) (isName : IsName name)
    (keyed : Keyed attributes) (named : ∀ child ∈ children, Named child)
    (inside : Spells children) : Spells (.element name attributes children :: trees) := by
  intro before tail ends
  have bracket : EndsText (writeTrees (.element name attributes children :: trees) ++ tail) := by
    refine .inr ?_
    simp only [writeTrees, writeTree, enclose]
    split <;> exact ⟨_, rfl⟩
  have joins : joinedAll (.element name attributes children :: trees)
      = .element name attributes (joinedAll children) :: joinedAll trees := rfl
  rw [pieces_text before bracket, writeTrees, writeTree, List.append_assoc,
    passes_element isName keyed named inside, others.start ends, joins,
    partsOfAll_joinTo_element]
  simp [Function.comp_def]

/-- Trees are spelled if each of them is spelled in front of trees that are. -/
theorem spells_of_each (each : ∀ tree ∈ trees, ∀ others, Spells others → Spells (tree :: others)) :
    Spells trees := by
  induction trees with
  | nil => exact .nil
  | cons tree rest inductionHypothesis =>
    obtain ⟨first, others⟩ := List.forall_mem_cons.mp each
    exact first rest (inductionHypothesis others)

/-- A named tree is spelled in front of trees that are spelled. -/
theorem Named.spells (named : Named tree) : ∀ others, Spells others → Spells (tree :: others) := by
  induction named with
  | text => exact fun _ spells => spells.text _
  | written plain => exact fun _ spells => spells.written plain
  | element isName keyed named inductionHypothesis =>
    exact fun _ spells => spells.element isName keyed named (spells_of_each inductionHypothesis)

/-- Written trees read as the trees that were written, with their texts joined. -/
theorem read?_writeTrees (named : ∀ tree ∈ trees, Named tree) :
    read? (writeTrees trees) = some (joinedAll trees) := by
  have spells : Spells trees := spells_of_each fun tree member => (named tree member).spells
  have pieces : (Place.enter .text).pieces (writeTrees trees)
      = some (partsOfAll (joinedAll trees)) := by
    simpa [Reader.pieces, Place.enter, unescaped?, Piece.texts] using spells.start (.inl rfl)
  have each : ∀ tree ∈ joinedAll trees, IsTaken tree :=
    forall_mem_joinedAll isTaken_text fun tree member => (named tree member).isTaken
  have taken := take_partsOfAll each [] []
  simp [read?, pieces, taken]

end Spelling

end GrammarView.Markup
