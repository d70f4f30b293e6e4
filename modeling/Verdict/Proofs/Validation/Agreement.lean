import Mathlib
import Verdict.Proofs.Compilation.Library
import Verdict.Proofs.Compilation.Validated
import Verdict.Validation.Unit

/-!
# Validation and compilation agree

Documents are validated and compiled by functions that have nothing in common. Still a document
without findings has all that its compiler reads, except that nobody has looked closely at what it
refers to. So it compiles exactly if its references say what they should.
-/

namespace Verdict

open Results

/-- Every inner node has two operands or more. -/
inductive Expression.Branching : Expression → Prop
  | ruleRef (r : VersionedId) : Branching (.ruleRef r)
  | logical (operator : Connective) {es : List Expression} : 2 ≤ es.length →
      (∀ e ∈ es, Branching e) → Branching (.logical operator es)

/-! ## References of a document -/

/-- A reference to a rule that the spec of a ruleset holds, in its expression or by itself. -/
inductive Json.RulesetHoldsRuleRef (spec : List (String × Json)) : Json → Option Json → Prop
  | expression {e reference : Json} {beside : Option Json} :
      Json.lookup "expression" spec = some e → e.HoldsRuleRef reference beside →
      RulesetHoldsRuleRef spec reference beside
  | bare {reference : Json} : Json.lookup "expression" spec = none →
      Json.lookup "ruleRef" spec = some reference →
      RulesetHoldsRuleRef spec reference (Json.lookup "version" spec)

namespace Json

variable {spec : List (String × Json)} {reference r : Json} {beside : Option Json}

theorem rulesetHoldsRuleRef_of_expression {e : Json} (he : Json.lookup "expression" spec = some e) :
    RulesetHoldsRuleRef spec r beside ↔ e.HoldsRuleRef r beside := by
  constructor
  · intro h
    cases h with
    | expression he' hholds =>
      cases he.symm.trans he'
      exact hholds
    | bare hnone _ => cases he.symm.trans hnone
  · exact .expression he

theorem rulesetHoldsRuleRef_of_bare (hnone : Json.lookup "expression" spec = none)
    (hl : Json.lookup "ruleRef" spec = some reference) :
    RulesetHoldsRuleRef spec r beside ↔ r = reference ∧ beside = Json.lookup "version" spec := by
  constructor
  · intro h
    cases h with
    | expression he _ => cases hnone.symm.trans he
    | bare _ hr =>
      cases hl.symm.trans hr
      exact ⟨rfl, rfl⟩
  · rintro ⟨rfl, rfl⟩
    exact .bare hnone hl

end Json

/-- The references in the spec of a document of a kind say what they should, and the tasks of a
challenge are registered. -/
def Json.SpecRefersWell (registered : Registry) (spec : List (String × Json)) : Kind → Prop
  | .evidenceType => True
  | .rule => ∀ j, Json.lookup "evidenceTypeRef" spec = some j → ∃ v, j.RefersTo v
  | .ruleset => ∀ reference beside, Json.RulesetHoldsRuleRef spec reference beside →
      ∃ v, reference.RefersToRule beside v
  | .task => ∀ j, Json.lookup "rulesetRef" spec = some j → ∃ v, j.RefersTo v
  | .challenge => ∀ entries, Json.lookup "tasks" spec = some (.arr entries) → ∀ entry ∈ entries,
      ∃ t, entry.RefersTo t ∧ registered.contains (t.withKind .task) = true

def SourceUnit.RefersWell (registered : Registry) (u : SourceUnit) : Prop :=
  ∀ spec, u.content.get? "spec" = some (.obj spec) → Json.SpecRefersWell registered spec u.kind

namespace Validation

/-! ## Expressions -/

section Node

variable {members : List (String × Json)} {j : Json} {id : String}

theorem nodes_eq_flatMap (items : List Json) : nodes items = items.flatMap node := by
  induction items with
  | nil => rw [nodes, List.flatMap_nil]
  | cons item items ih => rw [nodes, ih, List.flatMap_cons]

theorem operands_eq_nil_iff :
    operands members = [] ↔ ∃ items, Json.lookup "operands" members = some (.arr items) ∧
      2 ≤ items.length ∧ ∀ item ∈ items, node item = [] := by
  induction members with
  | nil => simp [operands, Json.lookup]
  | cons m members ih =>
    obtain ⟨key, value⟩ := m
    rw [operands, Json.lookup]
    split_ifs
    · cases value with
      | arr items =>
        simp [operandItems, nodes_eq_flatMap]
        exact fun _ => Iff.rfl
      | _ => simp [operandItems]
    · exact ih

/-- A node without a reference passes if it joins two nodes or more that pass. -/
theorem node_eq_nil_iff_of_no_ruleRef (h : Json.lookup "ruleRef" members = none) :
    node (.obj members) = [] ↔ ∃ operator items, Json.Joins members operator items ∧
      2 ≤ items.length ∧ ∀ item ∈ items, node item = [] := by
  rw [node, h]
  constructor
  · intro hnode
    rw [if_neg (by simp)] at hnode
    split at hnode
    case h_1 => cases hnode
    case h_2 name hname =>
      obtain ⟨hoperator, hoperands⟩ := List.append_eq_nil_iff.mp hnode
      obtain ⟨items, hvalue, hlength, hitems⟩ := operands_eq_nil_iff.mp hoperands
      cases hconnective : Connective.ofName? name with
      | none => simp [hconnective] at hoperator
      | some operator =>
        have hjoins : Json.Joins members operator items :=
          ⟨h, ⟨name, Json.bind_asString?_eq_some_iff.mp hname, hconnective⟩, hvalue⟩
        exact ⟨operator, items, hjoins, hlength, hitems⟩
  · rintro ⟨operator, items, ⟨-, ⟨name, hname, hconnective⟩, hvalue⟩, hlength, hitems⟩
    have hoperands := operands_eq_nil_iff.mpr ⟨items, hvalue, hlength, hitems⟩
    simp [text?, hname, Json.asString?, hconnective, hoperands]

theorem exists_obj_of_node (h : node j = []) : ∃ members, j = .obj members := by
  cases j with
  | obj members => exact ⟨members, rfl⟩
  | _ => simp [node] at h

/-- An expression that has passed compiles exactly if all references in it say what they should. -/
theorem exists_compileNode_iff (id : String) (h : node j = []) :
    (∃ e, compileNode id j = .ok e) ↔
      ∀ reference beside, j.HoldsRuleRef reference beside →
        ∃ v, reference.RefersToRule beside v := by
  induction j using Json.induct_nodes with
  | h j ih =>
    obtain ⟨members, rfl⟩ := exists_obj_of_node h
    cases hl : Json.lookup "ruleRef" members with
    | some reference =>
      simp only [compileNode_of_ruleRef hl, Json.holdsRuleRef_of_ruleRef hl]
      constructor
      · rintro ⟨e, v, hv, rfl⟩ reference beside ⟨rfl, rfl⟩
        exact ⟨v, hv⟩
      · intro hall
        obtain ⟨v, hv⟩ := hall _ _ ⟨rfl, rfl⟩
        exact ⟨_, v, hv, rfl⟩
    | none =>
      obtain ⟨operator, items, hjoins, hlength, hitems⟩ := (node_eq_nil_iff_of_no_ruleRef hl).mp h
      have hne : items ≠ [] := List.length_pos_iff.mp (by omega)
      have hcompiles : (∃ e, compileNode id (.obj members) = .ok e) ↔
          ∀ item ∈ items, ∃ e, compileNode id item = .ok e := by
        simp only [compileNode_of_joins hjoins, ← exists_forall₂_iff]
        constructor
        · rintro ⟨e, -, es, hes, -⟩
          exact ⟨es, hes⟩
        · rintro ⟨es, hes⟩
          exact ⟨_, hne, es, hes, rfl⟩
      rw [hcompiles]
      simp only [hjoins.holdsRuleRef_iff]
      constructor
      · rintro hall reference beside ⟨item, hitem, hholds⟩
        exact (ih rfl hjoins item hitem (hitems item hitem)).mp (hall item hitem) _ _ hholds
      · intro hall item hitem
        exact (ih rfl hjoins item hitem (hitems item hitem)).mpr fun reference beside hholds =>
          hall reference beside ⟨item, hitem, hholds⟩

theorem branching_of_compileNode (h : node j = []) {e : Expression}
    (he : compileNode id j = .ok e) : e.Branching := by
  refine compileNode_induct (P := fun j e => node j = [] → e.Branching) ?ruleRef ?logical he h
  case ruleRef => exact fun {_ _ v} _ _ _ => .ruleRef v
  case logical =>
    intro members operator items es hjoins _ hbranching h
    obtain ⟨_, _, hjoins', hlength, hpass⟩ :=
      (node_eq_nil_iff_of_no_ruleRef hjoins.no_ruleRef).mp h
    obtain rfl := hjoins.items_eq hjoins'
    refine .logical operator (hbranching.length_eq ▸ hlength) fun e he => ?_
    obtain ⟨item, hitem, hbranching⟩ := exists_of_forall₂ hbranching he
    exact hbranching (hpass item hitem)

end Node

theorem exists_ruleset_iff {d : Document} (h : ruleset d.spec = []) :
    (∃ c, Compilation.ruleset d = .ok c) ↔ ∀ reference beside,
      Json.RulesetHoldsRuleRef d.spec reference beside → ∃ v, reference.RefersToRule beside v := by
  simp only [Compilation.ruleset_eq_ok_iff]
  unfold ruleset at h
  split at h
  case h_1 e he =>
    simp only [Json.rulesetHoldsRuleRef_of_expression he, ← exists_compileNode_iff d.id h]
    constructor
    · rintro ⟨-, root, ⟨e', he', hnode⟩ | ⟨hnone, -⟩, -⟩
      · cases he.symm.trans he'
        exact ⟨root, hnode⟩
      · cases he.symm.trans hnone
    · rintro ⟨root, hnode⟩
      exact ⟨_, root, .inl ⟨e, he, hnode⟩, rfl⟩
  case h_2 reference hnone hl =>
    simp only [Json.rulesetHoldsRuleRef_of_bare hnone hl]
    constructor
    · rintro ⟨-, root, ⟨e, he, -⟩ | ⟨-, r, v, hr, hv, -⟩, -⟩
      · cases hnone.symm.trans he
      · cases hl.symm.trans hr
        rintro _ _ ⟨rfl, rfl⟩
        exact ⟨v, hv⟩
    · intro hall
      obtain ⟨v, hv⟩ := hall _ _ ⟨rfl, rfl⟩
      exact ⟨_, _, .inr ⟨hnone, reference, v, hl, hv, rfl⟩, rfl⟩
  case h_3 => cases h

theorem branching_of_ruleset {d : Document} (h : ruleset d.spec = []) {c : Compiled}
    (hc : Compilation.ruleset d = .ok c) :
    ∃ root : Expression, c.payload = .ruleset ⟨root⟩ ∧ root.Branching := by
  obtain ⟨root, hroot, rfl⟩ := Compilation.ruleset_eq_ok_iff.mp hc
  refine ⟨root, rfl, ?_⟩
  rcases hroot with ⟨e, he, hnode⟩ | ⟨-, reference, v, -, -, rfl⟩
  · rw [ruleset, he] at h
    exact branching_of_compileNode h hnode
  · exact .ruleRef v

/-! ## Evidence types -/

theorem fieldName_eq_nil_iff {seen : List String} {name : String} :
    fieldName seen name = [] ↔ name ≠ "" ∧ name ∉ seen := by
  unfold fieldName
  split_ifs with hempty hseen <;> simp [*]

/-- A field with a name and a known type compiles. -/
theorem exists_evidenceField {entry : Json} (hname : nameOf entry ≠ "")
    (htype : fieldType (nameOf entry) ((entry.get? "type").bind Json.asString?) = []) :
    ∃ field, Compilation.evidenceField entry = .ok field ∧ field.name = nameOf entry := by
  cases entry with
  | obj members =>
    have hn : (Json.lookup "name" members).bind Json.asString? = some (nameOf (.obj members)) := by
      unfold nameOf Json.get? at hname ⊢
      dsimp only at hname ⊢
      cases hl : (Json.lookup "name" members).bind Json.asString? with
      | none => simp [hl] at hname
      | some name => rfl
    unfold fieldType at htype
    split at htype
    case h_1 type ht =>
      split at htype
      case h_1 valueType hvalueType =>
        have hnameText : requiredText members "name" = .ok (nameOf (.obj members)) :=
          requiredText_eq_ok_iff.mpr (Json.bind_asString?_eq_some_iff.mp hn)
        have htypeText : requiredText members "type" = .ok type :=
          requiredText_eq_ok_iff.mpr (Json.bind_asString?_eq_some_iff.mp ht)
        refine ⟨⟨nameOf (.obj members), valueType, isRequired (.obj members)⟩, ?_, rfl⟩
        simp only [Compilation.evidenceField, Json.asObject?, hnameText, htypeText, hvalueType,
          ok_bind, pure_eq]
        rfl
      case h_2 => cases htype
    case h_2 => cases htype
  | _ => exact absurd rfl hname

/-- Fields that have passed compile behind others whose names were seen. -/
theorem exists_evidenceFields {entries : List Json} {seen : List String}
    {before : Table String EvidenceField}
    (hseen : ∀ name, before.contains name = true → name ∈ seen)
    (h : evidenceFields seen entries = []) :
    ∃ fields, Compilation.evidenceFields before entries = .ok fields := by
  induction entries generalizing seen before with
  | nil => exact ⟨before, rfl⟩
  | cons entry entries ih =>
    simp only [evidenceFields, List.append_eq_nil_iff, fieldName_eq_nil_iff] at h
    obtain ⟨⟨⟨hempty, hnew⟩, htype⟩, hrest⟩ := h
    rw [if_neg hempty] at hrest
    obtain ⟨field, hfield, hname⟩ := exists_evidenceField hempty htype
    have hcontains : before.contains field.name = false := by
      rw [Bool.eq_false_iff, hname]
      exact fun hc => hnew (hseen _ hc)
    have hnext : ∀ name, (before.insert field.name field).contains name = true →
        name ∈ nameOf entry :: seen := by
      intro name hc
      rw [Table.contains, Table.find?_insert] at hc
      split_ifs at hc with heq
      · exact List.mem_cons.mpr (.inl (heq.trans hname))
      · exact List.mem_cons_of_mem _ (hseen name hc)
    obtain ⟨fields, hfields⟩ := ih hnext hrest
    refine ⟨fields, ?_⟩
    rw [Compilation.evidenceFields, hfield]
    simpa [hcontains] using hfields

theorem exists_evidenceType {d : Document} (h : evidenceType d.spec = []) :
    ∃ c, Compilation.evidenceType d = .ok c := by
  unfold evidenceType at h
  split at h
  case h_1 => cases h
  case h_2 entries hentries =>
    obtain ⟨hfields, -⟩ := List.append_eq_nil_iff.mp h
    have hseen : ∀ name, (Table.empty : Table String EvidenceField).contains name = true →
        name ∈ [] := by simp [Table.contains]
    obtain ⟨fields, hok⟩ := exists_evidenceFields hseen hfields
    exact ⟨_, Compilation.evidenceType_eq_ok_iff.mpr
      ⟨entries, fields, Json.bind_asArray?_eq_some_iff.mp hentries, hok, rfl⟩⟩

/-! ## Rules -/

theorem exists_scalar {operator : String} {value : Option Json}
    (h : operatorAndValue operator value = []) :
    ∃ s, Scalar.ofJson? (value.getD .null) = some s := by
  unfold operatorAndValue at h
  split at h
  case h_1 n =>
    cases n with
    | int i =>
      rw [Option.getD_some, Scalar.ofJson?]
      split_ifs <;> exact ⟨_, rfl⟩
    | decimal d => exact ⟨_, rfl⟩
  case h_2 s => exact ⟨_, rfl⟩
  case h_3 b => exact ⟨_, rfl⟩
  case h_4 => cases h

/-- The parts of a rule that has passed. -/
theorem rule_eq_nil {spec : List (String × Json)} (h : rule spec = []) :
    ∃ type input operator, Json.lookup "type" spec = some (.str type) ∧
      Json.lookup "input" spec = some (.str input) ∧
      Json.lookup "operator" spec = some (.str operator) ∧
      operatorAndValue operator (Json.lookup "value" spec) = [] := by
  simp only [rule, List.append_eq_nil_iff] at h
  obtain ⟨⟨htype, hinput⟩, hcomparison⟩ := h
  split at htype
  case h_1 type ht =>
    split at hinput
    case h_1 input hi =>
      split at hcomparison
      case h_1 operator ho =>
        exact ⟨type, input, operator, Json.bind_asString?_eq_some_iff.mp ht,
          Json.bind_asString?_eq_some_iff.mp hi, Json.bind_asString?_eq_some_iff.mp ho, hcomparison⟩
      case h_2 => cases hcomparison
    case h_2 => cases hinput
  case h_2 => cases htype

theorem exists_rel_refersTo_iff {value : Option Json} :
    (∃ e, Option.Rel Json.RefersTo value e) ↔ ∀ j, value = some j → ∃ v, j.RefersTo v := by
  cases value with
  | none =>
    constructor
    · rintro - j ⟨⟩
    · intro
      exact ⟨none, .none⟩
  | some j =>
    constructor
    · rintro ⟨-, ⟨hv⟩⟩ j' ⟨⟩
      exact ⟨_, hv⟩
    · intro h
      obtain ⟨v, hv⟩ := h j rfl
      exact ⟨some v, .some hv⟩

theorem exists_rule_iff {d : Document} (h : rule d.spec = []) :
    (∃ c, Compilation.rule d = .ok c) ↔
      ∀ j, Json.lookup "evidenceTypeRef" d.spec = some j → ∃ v, j.RefersTo v := by
  obtain ⟨type, input, operator, htype, hinput, hoperator, hcomparison⟩ := rule_eq_nil h
  obtain ⟨value, hvalue⟩ := exists_scalar hcomparison
  rw [← exists_rel_refersTo_iff]
  simp only [Compilation.rule_eq_ok_iff]
  constructor
  · rintro ⟨-, -, e, -, -, -, -, he, -⟩
    exact ⟨e, he⟩
  · rintro ⟨e, he⟩
    exact ⟨_, ⟨input, operator, value, type⟩, e, hinput, hoperator, htype, hvalue, he, rfl⟩

/-! ## Tasks -/

theorem exists_action {a : Json} (h : action a = []) : ∃ x, Compilation.action a = .ok x := by
  cases a with
  | obj members =>
    simp only [action, List.append_eq_nil_iff] at h
    obtain ⟨⟨-, htrigger⟩, hemit⟩ := h
    split at htrigger
    case h_1 on hon =>
      cases ht : Trigger.ofName? on with
      | none => simp [ht] at htrigger
      | some trigger =>
        cases he : text? members "emit" with
        | none => simp [he] at hemit
        | some emit =>
          have honText : requiredText members "on" = .ok on :=
            requiredText_eq_ok_iff.mpr (Json.bind_asString?_eq_some_iff.mp hon)
          have hemitText : requiredText members "emit" = .ok emit :=
            requiredText_eq_ok_iff.mpr (Json.bind_asString?_eq_some_iff.mp he)
          exact ⟨⟨trigger, emit⟩,
            by simp [Compilation.action, Json.asObject?, honText, ht, hemitText]⟩
    case h_2 => cases htrigger
  | _ => simp [action] at h

/-- The parts of a task that has passed. -/
theorem task_eq_nil {spec : List (String × Json)} (h : task spec = []) :
    ∃ reference type resultType actions, Json.lookup "rulesetRef" spec = some reference ∧
      Json.lookup "resultType" spec = some (.str type) ∧
      ResultType.ofName? type = some resultType ∧
      Compilation.actions (Json.lookup "actions" spec) = .ok actions := by
  simp only [task, List.append_eq_nil_iff] at h
  obtain ⟨⟨hreference, htype⟩, hactions⟩ := h
  obtain ⟨reference, hr⟩ : ∃ reference, Json.lookup "rulesetRef" spec = some reference := by
    cases hl : Json.lookup "rulesetRef" spec with
    | none => simp [hl] at hreference
    | some reference => exact ⟨reference, rfl⟩
  obtain ⟨type, resultType, ht, hresultType⟩ : ∃ type resultType,
      Json.lookup "resultType" spec = some (.str type) ∧
        ResultType.ofName? type = some resultType := by
    split at htype
    case h_1 type ht =>
      cases hn : ResultType.ofName? type with
      | none => simp [hn] at htype
      | some resultType => exact ⟨type, resultType, Json.bind_asString?_eq_some_iff.mp ht, hn⟩
    case h_2 => cases htype
  obtain ⟨actions, ha⟩ : ∃ as, Compilation.actions (Json.lookup "actions" spec) = .ok as := by
    split at hactions
    case h_1 hl => exact ⟨[], by rw [hl]; rfl⟩
    case h_2 items hl =>
      rw [hl]
      rw [List.flatMap_eq_nil_iff] at hactions
      exact exists_mapM_eq_ok_iff.mpr fun a ha => exists_action (hactions a ha)
    case h_3 => cases hactions
  exact ⟨reference, type, resultType, actions, hr, ht, hresultType, ha⟩

theorem exists_task_iff {d : Document} (h : task d.spec = []) :
    (∃ c, Compilation.task d = .ok c) ↔
      ∀ j, Json.lookup "rulesetRef" d.spec = some j → ∃ v, j.RefersTo v := by
  obtain ⟨reference, type, resultType, actions, hreference, htype, hresultType, hactions⟩ :=
    task_eq_nil h
  simp only [Compilation.task_eq_ok_iff]
  constructor
  · rintro ⟨-, t, ⟨j, hj, hv⟩, -⟩ j' hj'
    cases hj.symm.trans hj'
    exact ⟨_, hv⟩
  · intro hall
    obtain ⟨v, hv⟩ := hall reference hreference
    exact ⟨_, ⟨v, resultType, actions, _⟩, ⟨reference, hreference, hv⟩, ⟨type, htype, hresultType⟩,
      hactions, rfl, rfl⟩

/-! ## Challenges -/

theorem exists_challenge_iff {registered : Registry} {d : Document} (h : challenge d.spec = []) :
    (∃ c, Compilation.challenge registered d = .ok c) ↔
      ∀ entries, Json.lookup "tasks" d.spec = some (.arr entries) → ∀ entry ∈ entries,
        ∃ t, entry.RefersTo t ∧ registered.contains (t.withKind .task) = true := by
  obtain ⟨-, htasks⟩ := List.append_eq_nil_iff.mp h
  split at htasks
  case h_1 task tasks hl =>
    rw [Json.bind_asArray?_eq_some_iff] at hl
    simp only [Compilation.challenge_eq_ok_iff, Document.ListsTasks, Json.bind_asArray?_eq_some_iff,
      hl, versionedRef_eq_ok_iff, Option.some.injEq, Json.arr.injEq, exists_eq_left', forall_eq']
    rw [← exists_forall₂_iff]
    simp only [forall₂_and_right]
    constructor
    · rintro ⟨-, ts, hts, hregistered, -⟩
      exact ⟨ts, hts, hregistered⟩
    · rintro ⟨ts, hts, hregistered⟩
      exact ⟨_, ts, hts, hregistered, rfl⟩
  case h_2 => cases htasks

/-! ## Documents -/

variable {u : SourceUnit} {origin : String} {content : Json}

/-- A document that has passed has a head that its compiler can read. -/
theorem exists_document (hu : SourceUnit.ofJson origin content = .ok u)
    (valid : findings u = []) : ∃ d, Document.ofJson u.kind u.content = .ok d := by
  obtain ⟨-, rfl, -, hid, hversion⟩ := SourceUnit.ofJson_eq_ok_iff.mp hu
  obtain ⟨hfault, hspec⟩ := List.append_eq_nil_iff.mp valid
  have hvalidId : ValidId u.id := by
    cases hf : idFault? u.id with
    | none => exact hf
    | some fault => simp [hf] at hfault
  unfold ofSpec at hspec
  split at hspec
  case h_1 => cases hspec
  case h_2 spec hs =>
    unfold spec? at hs
    split at hs
    case h_1 m ms hobj =>
      cases hs
      obtain ⟨j, hj, hms⟩ := Option.bind_eq_some_iff.mp hobj
      cases j with
      | obj members =>
        cases hms
        exact ⟨⟨u.id, u.version, m :: ms⟩,
          Document.ofJson_eq_ok_iff.mpr ⟨hid, hvalidId, hversion, hj, by simp⟩⟩
      | _ => cases hms
    case h_2 => cases hs

/-- The body of a document that has passed compiles exactly if it refers well, one case per kind. -/
theorem exists_body_iff {registered : Registry} {kind : Kind} {source : Json} {d : Document}
    (hd : Document.ofJson kind source = .ok d) (valid : ofSpec kind source = []) :
    (∃ c, Compilation.body kind registered d = .ok c) ↔
      Json.SpecRefersWell registered d.spec kind := by
  rw [ofSpec, spec?_eq_of_ofJson hd] at valid
  cases kind with
  | evidenceType => exact ⟨fun _ => trivial, fun _ => exists_evidenceType valid⟩
  | rule => exact exists_rule_iff valid
  | ruleset => exact exists_ruleset_iff valid
  | task => exact exists_task_iff valid
  | challenge => exact exists_challenge_iff valid

/-- A document without findings compiles exactly if its references say what they should and, for a
challenge, its tasks are registered. Every ruleset compiled from such a document joins two operands
or more wherever it joins any. -/
theorem compile_agrees (hu : SourceUnit.ofJson origin content = .ok u) (valid : findings u = [])
    (registered : Registry) (builtAt : UInt64) :
    ((∃ a, compile u.kind registered builtAt u.content = .ok a) ↔ u.RefersWell registered) ∧
      ∀ a ruleset, compile u.kind registered builtAt u.content = .ok a →
        a.payload = .ruleset ruleset → ruleset.root.Branching := by
  obtain ⟨d, hd⟩ := exists_document hu valid
  have hspec : ofSpec u.kind u.content = [] := (List.append_eq_nil_iff.mp valid).2
  obtain ⟨-, -, -, hget, -⟩ := Document.ofJson_eq_ok_iff.mp hd
  constructor
  · have hrefers : u.RefersWell registered ↔ Json.SpecRefersWell registered d.spec u.kind := by
      simp [SourceUnit.RefersWell, hget]
    rw [hrefers, ← exists_body_iff hd hspec]
    simp only [compile_eq_ok_iff, hd, Except.ok.injEq, exists_and_left, exists_eq_left']
    constructor
    · rintro ⟨-, c, hc, -⟩
      exact ⟨c, hc⟩
    · rintro ⟨c, hc⟩
      exact ⟨_, c, hc, rfl⟩
  · intro a ruleset ha hpayload
    obtain ⟨d', c, hd', hc, rfl⟩ := compile_eq_ok_iff.mp ha
    cases hd.symm.trans hd'
    have hkind : u.kind = .ruleset := by
      rw [← Compilation.body_kind hc]
      exact congrArg Payload.kind hpayload
    rw [hkind] at hc hspec hd
    rw [ofSpec, spec?_eq_of_ofJson hd] at hspec
    obtain ⟨root, hroot, hbranching⟩ := branching_of_ruleset hspec hc
    cases hroot.symm.trans hpayload
    exact hbranching

/-- A ruleset with a node below its root, that refers to rules in three ways. -/
def nestedRuleset : SourceUnit :=
  Library.document .ruleset "ages" [("expression", .obj [("operator", .str "AND"), ("operands", .arr
    [.obj [("ruleRef", .str "adult"), ("version", .num (.int 2))],
      .obj [("operator", .str "OR"), ("operands", .arr
        [.obj [("ruleRef", .obj [("id", .str "resident")])],
          .obj [("ruleRef", .str "citizen")]])]])])]

theorem compile_agrees_nestedRuleset :
    SourceUnit.ofJson "ages" nestedRuleset.content = .ok nestedRuleset ∧
      findings nestedRuleset = [] ∧ nestedRuleset.RefersWell Table.empty ∧
      ∃ a r, compile .ruleset Table.empty 0 nestedRuleset.content = .ok a ∧
        a.payload = .ruleset r ∧ r.root.leaves.length = 3 ∧ r.root.Branching := by
  have hvalid : findings nestedRuleset = [] := rfl
  have hread : SourceUnit.ofJson "ages" nestedRuleset.content = .ok nestedRuleset := rfl
  obtain ⟨hiff, hbranching⟩ := compile_agrees hread hvalid Table.empty 0
  have hok : ∃ a, compile .ruleset Table.empty 0 nestedRuleset.content = .ok a := ⟨_, rfl⟩
  refine ⟨hread, hvalid, hiff.mp hok, _, _, rfl, rfl, rfl, hbranching _ _ rfl rfl⟩

end Validation
end Verdict
