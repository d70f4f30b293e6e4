import Mathlib
import Verdict.Proofs.Evaluation.Vacuity
import Verdict.Proofs.Validation.Agreement

/-!
# What the document of a ruleset can express

An expression can be written in many ways, since every reference in it can. A document compiles to
an expression exactly if it writes it and the expression is well formed, so no way of writing says
anything else than another. What is left to validation is the number of operands.
-/

namespace Verdict

open Results

/-! ## Well-formed expressions -/

/-- Every node has an operand, and the references are such as artifacts can have. -/
structure Expression.WellFormed (e : Expression) : Prop where
  occupied : e.Occupied
  leaf : ∀ v ∈ e.leaves, v.WellFormed

namespace Expression

variable {es : List Expression} {operator : Connective}

theorem occupied_logical_iff :
    Occupied (.logical operator es) ↔ es ≠ [] ∧ ∀ e ∈ es, e.Occupied := by
  constructor
  · intro h
    cases h with
    | logical hne hall => exact ⟨hne, hall⟩
  · rintro ⟨hne, hall⟩
    exact .logical hne hall

theorem wellFormed_ruleRef_iff {v : VersionedId} : WellFormed (.ruleRef v) ↔ v.WellFormed := by
  constructor
  · intro h
    exact h.leaf v (by simp [leaves])
  · intro h
    exact ⟨.ruleRef v, by simpa [leaves] using h⟩

theorem wellFormed_logical_iff :
    WellFormed (.logical operator es) ↔ es ≠ [] ∧ ∀ e ∈ es, e.WellFormed := by
  have hleaves : (∀ v ∈ leaves (.logical operator es), v.WellFormed) ↔
      ∀ e ∈ es, ∀ v ∈ e.leaves, v.WellFormed := by
    rw [leaves, leavesOfAll_eq_flatMap]
    simp only [List.mem_flatMap, forall_exists_index, and_imp]
    exact ⟨fun h e he v hv => h v e he hv, fun h v e he hv => h e he v hv⟩
  constructor
  · intro h
    obtain ⟨hne, hoccupied⟩ := occupied_logical_iff.mp h.occupied
    exact ⟨hne, fun e he => ⟨hoccupied e he, hleaves.mp h.leaf e he⟩⟩
  · rintro ⟨hne, hall⟩
    exact ⟨.logical hne fun e he => (hall e he).occupied, hleaves.mpr fun e he => (hall e he).leaf⟩

end Expression

/-! ## Documents that write an expression -/

namespace Json

/-- A value that stands for a rule: its id, with the version beside it, or an object with both. -/
inductive NamesRule (beside : Option Json) (v : VersionedId) : Json → Prop
  | id : StatesVersion beside v.version → NamesRule beside v (.str v.id)
  | object {members : List (String × Json)} : Json.lookup "id" members = some (.str v.id) →
      StatesVersion (Json.lookup "version" members) v.version → NamesRule beside v (.obj members)

/-- The value is a node for every node of the expression, with the rules named in any way. -/
inductive Writes : Json → Expression → Prop
  | ruleRef {members : List (String × Json)} {reference : Json} {v : VersionedId} :
      Json.lookup "ruleRef" members = some reference →
      NamesRule (Json.lookup "version" members) v reference → Writes (.obj members) (.ruleRef v)
  | logical {members : List (String × Json)} {operator : Connective} {items : List Json}
      {es : List Expression} : Joins members operator items → List.Forall₂ Writes items es →
      Writes (.obj members) (.logical operator es)

theorem refersToRule_iff {reference : Json} {beside : Option Json} {v : VersionedId} :
    reference.RefersToRule beside v ↔ reference.NamesRule beside v ∧ v.WellFormed := by
  constructor
  · intro h
    refine ⟨?_, h.wellFormed⟩
    obtain ⟨members, rfl, hid, -, hversion⟩ | ⟨rfl, -, hversion⟩ := h
    · exact .object hid hversion
    · exact .id hversion
  · rintro ⟨hnames, wellFormed⟩
    cases hnames with
    | id hversion => exact .inr ⟨rfl, wellFormed.validId, hversion⟩
    | object hid hversion => exact .inl ⟨_, rfl, hid, wellFormed.validId, hversion⟩

end Json

theorem Connective.ofName?_name (operator : Connective) :
    ofName? operator.name = some operator := by
  cases operator <;> rfl

namespace Expression

/-- An expression with versions that references can have is written by some document. -/
theorem Occupied.exists_writes {e : Expression} (h : e.Occupied)
    (positive : ∀ v ∈ e.leaves, 1 ≤ v.version) : ∃ j : Json, j.Writes e := by
  induction h with
  | ruleRef v =>
    have hversion : 1 ≤ v.version := positive v (by simp [leaves])
    exact ⟨.obj [("ruleRef", .str v.id), ("version", .num (.int v.version.toNat))],
      .ruleRef rfl (.id (.inr ⟨rfl, hversion⟩))⟩
  | @logical operator es _ _ ih =>
    have hitems : ∃ items, List.Forall₂ (fun e item => Json.Writes item e) es items := by
      refine exists_forall₂_iff.mpr fun e he => ih e he fun v hv => positive v ?_
      rw [leaves, leavesOfAll_eq_flatMap]
      exact List.mem_flatMap.mpr ⟨e, he, hv⟩
    obtain ⟨items, hitems⟩ := hitems
    exact ⟨.obj [("operator", .str operator.name), ("operands", .arr items)],
      .logical ⟨rfl, ⟨_, rfl, operator.ofName?_name⟩, rfl⟩ hitems.flip⟩

end Expression

/-! ## Compilation -/

section Node

variable {id : String} {j : Json} {e : Expression}

/-- Whatever a node compiles to is well formed and is what the node writes. -/
theorem writes_of_compileNode (h : compileNode id j = .ok e) : j.Writes e ∧ e.WellFormed := by
  refine compileNode_induct (P := fun j e => j.Writes e ∧ e.WellFormed) ?ruleRef ?logical h
  case ruleRef =>
    intro members reference v hl hrefers
    obtain ⟨hnames, wellFormed⟩ := Json.refersToRule_iff.mp hrefers
    exact ⟨.ruleRef hl hnames, Expression.wellFormed_ruleRef_iff.mpr wellFormed⟩
  case logical =>
    intro members operator items es hjoins hne hitems
    obtain ⟨hwrites, hall⟩ := forall₂_and_right.mp hitems
    have hne' : es ≠ [] := by
      rintro rfl
      exact hne (List.forall₂_nil_right_iff.mp hitems)
    exact ⟨.logical hjoins hwrites, Expression.wellFormed_logical_iff.mpr ⟨hne', hall⟩⟩

/-- A node compiles to the well-formed expression that it writes. -/
theorem compileNode_of_writes (h : j.Writes e) (wellFormed : e.WellFormed) :
    compileNode id j = .ok e := by
  -- not by induction on what is written, since that has its operands in a list
  induction j using Json.induct_nodes generalizing e with
  | h j ih =>
    cases h with
    | @ruleRef members reference v hl hnames =>
      have hv : v.WellFormed := Expression.wellFormed_ruleRef_iff.mp wellFormed
      exact (compileNode_of_ruleRef hl).mpr ⟨v, Json.refersToRule_iff.mpr ⟨hnames, hv⟩, rfl⟩
    | @logical members operator items es hjoins hwrites =>
      obtain ⟨hne, hall⟩ := Expression.wellFormed_logical_iff.mp wellFormed
      have hne' : items ≠ [] := by
        rintro rfl
        exact hne (List.forall₂_nil_left_iff.mp hwrites)
      have hitems : List.Forall₂ (fun item e => item.Writes e ∧ e.WellFormed) items es :=
        forall₂_and_right.mpr ⟨hwrites, hall⟩
      have hes : List.Forall₂ (fun item e => compileNode id item = .ok e) items es :=
        forall₂_imp_left (fun item hitem e he => ih rfl hjoins item hitem he.1 he.2) hitems
      exact (compileNode_of_joins hjoins).mpr ⟨hne', es, hes, rfl⟩

/-- All the ways of writing a well-formed expression compile to it, and nothing else does. -/
theorem compileNode_eq_ok_iff : compileNode id j = .ok e ↔ j.Writes e ∧ e.WellFormed := by
  constructor
  · exact writes_of_compileNode
  · rintro ⟨hwrites, wellFormed⟩
    exact compileNode_of_writes hwrites wellFormed

/-! ## Validation -/

theorem Validation.node_eq_nil_of_branching (hbranching : e.Branching) (h : j.Writes e) :
    node j = [] := by
  induction hbranching generalizing j with
  | ruleRef v =>
    cases h with
    | ruleRef hl _ => rw [node, hl, Option.isSome_some, if_pos rfl]
  | logical operator hlength _ ih =>
    cases h with
    | @logical members _ items es hjoins hwrites =>
      refine (node_eq_nil_iff_of_no_ruleRef hjoins.no_ruleRef).mpr
        ⟨operator, items, hjoins, hwrites.length_eq ▸ hlength, fun item hitem => ?_⟩
      obtain ⟨e, he, hitem⟩ := exists_of_forall₂ hwrites.flip hitem
      exact ih e he hitem

/-- A node passes exactly if the expression that it writes has two operands or more wherever it has
any. -/
theorem Validation.node_eq_nil_iff (wellFormed : e.WellFormed) (h : j.Writes e) :
    node j = [] ↔ e.Branching := by
  constructor
  · intro hnode
    have hok : compileNode "" j = .ok e := compileNode_of_writes h wellFormed
    exact branching_of_compileNode hnode hok
  · intro hbranching
    exact node_eq_nil_of_branching hbranching h

end Node

/-! ## Rulesets -/

/-- The value is the document of a ruleset with a value for its expression. -/
def Json.HoldsExpression (source j : Json) : Prop :=
  ∃ d, Document.ofJson .ruleset source = .ok d ∧ Json.lookup "expression" d.spec = some j

theorem Json.holdsExpression_document {id : String} (h : ValidId id) (j : Json) :
    (Library.document .ruleset id [("expression", j)]).content.HoldsExpression j := by
  have hid : (some (Json.str id)).bind SourceUnit.nonEmpty? = some id :=
    SourceUnit.bind_nonEmpty?_eq_some_iff.mpr ⟨rfl, h.ne_empty⟩
  exact ⟨⟨id, 1, [("expression", j)]⟩,
    Document.ofJson_eq_ok_iff.mpr ⟨hid, h, rfl, rfl, by simp⟩, rfl⟩

section Ruleset

variable {registered : Registry} {builtAt : UInt64} {source j : Json} {e : Expression}

theorem Json.HoldsExpression.exists_compile (h : source.HoldsExpression j) (hwrites : j.Writes e)
    (wellFormed : e.WellFormed) : ∃ a, compile .ruleset registered builtAt source = .ok a ∧
      a.payload = .ruleset ⟨e⟩ := by
  obtain ⟨d, hd, hl⟩ := h
  have hnode : compileNode d.id j = .ok e := compileNode_of_writes hwrites wellFormed
  have hbody : Compilation.body .ruleset registered d = .ok _ :=
    Compilation.ruleset_eq_ok_iff.mpr ⟨e, .inl ⟨j, hl, hnode⟩, rfl⟩
  exact ⟨_, compile_eq_ok_iff.mpr ⟨d, _, hd, hbody, rfl⟩, rfl⟩

theorem Json.HoldsExpression.ofSpec_eq (h : source.HoldsExpression j) :
    Validation.ofSpec .ruleset source = Validation.node j := by
  obtain ⟨d, hd, hl⟩ := h
  rw [Validation.ofSpec, Validation.spec?_eq_of_ofJson hd]
  dsimp only [Validation.ruleset]
  rw [hl]

/-- Whatever ruleset is compiled, validated or not, its expression is well formed. -/
theorem wellFormed_of_compile {a : Artifact}
    (h : compile .ruleset registered builtAt source = .ok a) :
    ∃ e : Expression, a.payload = .ruleset ⟨e⟩ ∧ e.WellFormed := by
  obtain ⟨d, c, -, hc, rfl⟩ := compile_eq_ok_iff.mp h
  obtain ⟨root, hroot, rfl⟩ := Compilation.ruleset_eq_ok_iff.mp hc
  refine ⟨root, rfl, ?_⟩
  rcases hroot with ⟨j, -, hnode⟩ | ⟨-, reference, v, -, hrefers, rfl⟩
  · exact (writes_of_compileNode hnode).2
  · exact Expression.wellFormed_ruleRef_iff.mpr hrefers.wellFormed

end Ruleset

/-- Every well-formed expression is written in some document. However it is written, the document
compiles to this expression, and it passes validation exactly if every inner node has two operands.
Conversely the expression of every compiled ruleset is well formed. -/
theorem compile_expresses :
    (∀ e : Expression, e.WellFormed →
      (∃ source j : Json, source.HoldsExpression j ∧ j.Writes e) ∧
        ∀ source j : Json, source.HoldsExpression j → j.Writes e →
          (∀ registered builtAt, ∃ a, compile .ruleset registered builtAt source = .ok a ∧
            a.payload = .ruleset ⟨e⟩) ∧
          (Validation.ofSpec .ruleset source = [] ↔ e.Branching)) ∧
    ∀ registered builtAt source a, compile .ruleset registered builtAt source = .ok a →
      ∃ e : Expression, a.payload = .ruleset ⟨e⟩ ∧ e.WellFormed := by
  constructor
  · intro e wellFormed
    constructor
    · obtain ⟨j, hwrites⟩ :=
        wellFormed.occupied.exists_writes fun v hv => (wellFormed.leaf v hv).positive
      have hsource := Json.holdsExpression_document (by decide : ValidId "rs") j
      exact ⟨_, j, hsource, hwrites⟩
    · intro source j hsource hwrites
      constructor
      · intro registered builtAt
        exact hsource.exists_compile hwrites wellFormed
      · rw [hsource.ofSpec_eq]
        exact Validation.node_eq_nil_iff wellFormed hwrites
  · intro registered builtAt source a h
    exact wellFormed_of_compile h

namespace Validation

/-- The expression of the ruleset that refers to rules in three ways. -/
def nestedRoot : Expression :=
  .logical .and [.ruleRef ⟨"adult", 2⟩,
    .logical .or [.ruleRef ⟨"resident", 1⟩, .ruleRef ⟨"citizen", 1⟩]]

/-- A node with one operand. -/
def lonelyRoot : Expression := .logical .or [.ruleRef ⟨"adult", 1⟩]

/-- The ruleset with that node. -/
def lonelyRuleset : SourceUnit :=
  Library.document .ruleset "ages" [("expression", .obj [("operator", .str "OR"),
    ("operands", .arr [.obj [("ruleRef", .str "adult")]])])]

theorem wellFormed_nestedRoot : nestedRoot.WellFormed := by
  simp only [nestedRoot, Expression.wellFormed_logical_iff, Expression.wellFormed_ruleRef_iff,
    List.forall_mem_cons]
  exact ⟨by simp, ⟨by decide, by decide⟩, ⟨by simp, ⟨by decide, by decide⟩,
    ⟨by decide, by decide⟩, by simp⟩, by simp⟩

theorem branching_nestedRoot : nestedRoot.Branching := by
  apply Expression.Branching.logical _ (by decide)
  simp only [List.forall_mem_cons]
  refine ⟨.ruleRef _, .logical _ (by decide) ?_, by simp⟩
  simp only [List.forall_mem_cons]
  exact ⟨.ruleRef _, .ruleRef _, by simp⟩

theorem exists_writes_nestedRoot :
    ∃ j, nestedRuleset.content.HoldsExpression j ∧ j.Writes nestedRoot := by
  have hadult : (Json.obj [("ruleRef", .str "adult"), ("version", .num (.int 2))]).Writes
      (.ruleRef ⟨"adult", 2⟩) := .ruleRef rfl (.id (.inr ⟨rfl, by decide⟩))
  have hresident : (Json.obj [("ruleRef", .obj [("id", .str "resident")])]).Writes
      (.ruleRef ⟨"resident", 1⟩) := .ruleRef rfl (.object rfl (.inl ⟨rfl, rfl⟩))
  have hcitizen : (Json.obj [("ruleRef", .str "citizen")]).Writes (.ruleRef ⟨"citizen", 1⟩) :=
    .ruleRef rfl (.id (.inl ⟨rfl, rfl⟩))
  refine ⟨_, Json.holdsExpression_document (by decide) _, ?_⟩
  apply Json.Writes.logical ⟨rfl, ⟨"AND", rfl, rfl⟩, rfl⟩
  refine .cons hadult (.cons ?_ .nil)
  exact .logical ⟨rfl, ⟨"OR", rfl, rfl⟩, rfl⟩ (.cons hresident (.cons hcitizen .nil))

theorem wellFormed_lonelyRoot : lonelyRoot.WellFormed := by
  simp only [lonelyRoot, Expression.wellFormed_logical_iff, Expression.wellFormed_ruleRef_iff,
    List.forall_mem_cons]
  exact ⟨by simp, ⟨by decide, by decide⟩, by simp⟩

theorem not_branching_lonelyRoot : ¬lonelyRoot.Branching := by
  intro h
  cases h with
  | logical _ hlength _ => exact absurd hlength (by decide)

theorem exists_writes_lonelyRoot :
    ∃ j, lonelyRuleset.content.HoldsExpression j ∧ j.Writes lonelyRoot := by
  refine ⟨_, Json.holdsExpression_document (by decide) _, ?_⟩
  apply Json.Writes.logical ⟨rfl, ⟨"OR", rfl, rfl⟩, rfl⟩
  exact .cons (.ruleRef rfl (.id (.inl ⟨rfl, rfl⟩))) .nil

/-- The nested ruleset passes, and the one with a lonely operand compiles but does not pass. -/
theorem compile_expresses_nestedRuleset :
    nestedRoot.WellFormed ∧ lonelyRoot.WellFormed ∧
      (∃ a, compile .ruleset Table.empty 0 nestedRuleset.content = .ok a ∧
        a.payload = .ruleset ⟨nestedRoot⟩) ∧
      ofSpec .ruleset nestedRuleset.content = [] ∧
      (∃ a, compile .ruleset Table.empty 0 lonelyRuleset.content = .ok a ∧
        a.payload = .ruleset ⟨lonelyRoot⟩ ∧
        ∃ e : Expression, a.payload = .ruleset ⟨e⟩ ∧ e.WellFormed) ∧
      ofSpec .ruleset lonelyRuleset.content ≠ [] := by
  obtain ⟨j, hj, hwrites⟩ := exists_writes_nestedRoot
  obtain ⟨hcompile, hpasses⟩ := (compile_expresses.1 _ wellFormed_nestedRoot).2 _ j hj hwrites
  obtain ⟨j', hj', hwrites'⟩ := exists_writes_lonelyRoot
  obtain ⟨hcompile', hpasses'⟩ := (compile_expresses.1 _ wellFormed_lonelyRoot).2 _ j' hj' hwrites'
  obtain ⟨a, ha, hroot⟩ := hcompile' Table.empty 0
  refine ⟨wellFormed_nestedRoot, wellFormed_lonelyRoot, hcompile _ _,
    hpasses.mpr branching_nestedRoot, ⟨a, ha, hroot, compile_expresses.2 _ _ _ a ha⟩, ?_⟩
  rw [ne_eq, hpasses']
  exact not_branching_lonelyRoot

end Validation
end Verdict
