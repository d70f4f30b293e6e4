import Verdict.Proofs.Payload.Plain

/-!
# Rulesets read back

A tree is written node by node and read back node by node. The root is looked at once more before,
for its tag and for flaws.
-/

namespace Verdict

open Json (sortKeys sortKeysMembers sortKeysItems toDraft toDraftItems)
open Json.Draft (Field)
open Results

namespace Expression

theorem sortKeys_ruleRef (r : VersionedId) :
    (toJson (.ruleRef r)).sortKeys = .obj [("node", .str "ruleRef"), ("ruleId", .str r.id),
      ("version", .num (.int r.version.toNat))] := by
  rw [toJson]
  rfl

theorem sortKeys_logical (operator : Connective) (operands : List Expression) :
    (toJson (.logical operator operands)).sortKeys = .obj [("node", .str "logical"),
      ("operands", .arr (sortKeysItems (toJsonAll operands))),
      ("operator", .str operator.name)] := by
  rw [toJson]
  rfl

theorem refOfDrafts?_toDraft (r : VersionedId) :
    refOfDrafts? (toDraft (.str r.id)) (toDraft (.num (.int r.version.toNat))) =
      some (.ruleRef r) := by
  rw [refOfDrafts?, Json.text_str, Json.uint32_int]

theorem operandMembers?_logical {operands : List Json} {es : List Expression}
    (h : ofNodes? (toDraftItems operands) = some es) (operator : Json) :
    operandMembers? (Json.toDraftMembers [("node", .str "logical"), ("operands", .arr operands),
      ("operator", operator)]) = [some es] := by
  rw [← h]
  rfl

theorem ofNode?_logical (operator : Connective) {operands : List Json} {es : List Expression}
    (h : ofNodes? (toDraftItems operands) = some es) :
    ofNode? (toDraft (.obj [("node", .str "logical"), ("operands", .arr operands),
      ("operator", .str operator.name)])) = some (.logical operator es) := by
  have hmembers := operandMembers?_logical h (.str operator.name)
  rw [toDraft, ofNode?, hmembers]
  cases operator <;> rfl

mutual
theorem ofNode?_sortKeys : ∀ e : Expression, ofNode? e.toJson.sortKeys.toDraft = some e
  | .ruleRef r => by
    rw [sortKeys_ruleRef, toDraft, ofNode?]
    exact refOfDrafts?_toDraft r
  | .logical operator operands => by
    have hoperands := ofNodes?_sortKeys operands
    rw [sortKeys_logical]
    exact ofNode?_logical operator hoperands

theorem ofNodes?_sortKeys : ∀ es : List Expression,
    ofNodes? (toDraftItems (sortKeysItems (toJsonAll es))) = some es
  | [] => rfl
  | e :: es => by
    rw [toJsonAll, sortKeysItems, toDraftItems, ofNodes?, ofNode?_sortKeys e, ofNodes?_sortKeys es]
end

/-! ## The root -/

/-- The members of a root that starts with its tag are passed over if there is no flaw in them. -/
theorem checkMembers_tagged {depth : ℕ} {shape : Shape} {ms : List (String × Json)}
    (h : ∀ m ∈ ms, m.1 ≠ "node" ∧ m.2.Storable depth) :
    checkMembers depth (some shape) (Json.toDraftMembers ms) = .ok (some shape) := by
  induction ms with
  | nil => rfl
  | cons m ms ih =>
    obtain ⟨k, v⟩ := m
    rw [List.forall_mem_cons] at h
    obtain ⟨⟨hkey, hv⟩, h⟩ := h
    rw [Json.toDraftMembers, checkMembers, Json.Token.sound, ok_bind, if_neg hkey,
      Json.toJson_toDraft hv, ok_bind, ih h]

/-- A tree is read back from its root. -/
theorem ofDraft_sortKeys {depth : ℕ} {e : Expression} (h : e.toJson.Storable (depth + 1)) :
    ofDraft depth e.toJson.sortKeys.toDraft = .ok e := by
  have hnode := ofNode?_sortKeys e
  have hstorable := h.sortKeys
  obtain ⟨name, shape, ms, hsort, hshape, hkeys⟩ : ∃ name shape ms,
      e.toJson.sortKeys = .obj (("node", .str name) :: ms) ∧ Shape.ofName? name = some shape ∧
        ∀ m ∈ ms, m.1 ≠ "node" := by
    cases e with
    | ruleRef r => exact ⟨_, .ruleRef, _, sortKeys_ruleRef r, rfl, by simp⟩
    | logical operator operands => exact ⟨_, .logical, _, sortKeys_logical operator operands, rfl,
        by simp⟩
  rw [hsort] at hnode hstorable ⊢
  have hmembers : checkMembers depth none (Json.toDraftMembers (("node", .str name) :: ms)) =
      .ok (some shape) := by
    have hroot : Shape.ofRootTag (toDraft (.str name)) = .ok shape := by
      rw [Shape.ofRootTag, Json.text_str, ok_bind, hshape]
      rfl
    cases hstorable with
    | obj _ hall =>
      rw [Json.toDraftMembers, checkMembers, Json.Token.sound, ok_bind, if_pos rfl, if_neg (by simp),
        hroot, ok_bind]
      exact checkMembers_tagged fun m hm => ⟨hkeys m hm, hall m (List.mem_cons_of_mem _ hm)⟩
  rw [toDraft] at hnode ⊢
  rw [ofDraft]
  dsimp only
  rw [hmembers, hnode]
  rfl

/-! ## Trees that can be stored -/

theorem storable_ruleRef (n : ℕ) (r : VersionedId) : (toJson (.ruleRef r)).Storable (n + 1) := by
  rw [toJson]
  refine .obj (by simp) ?_
  simp only [List.forall_mem_cons]
  exact ⟨.str _, .str _, .num (Json.inRange_uint32 r.version), by simp⟩

theorem toJsonAll_eq_map (es : List Expression) : toJsonAll es = es.map toJson := by
  induction es with
  | nil => rfl
  | cons e es ih => rw [toJsonAll, ih, List.map_cons]

theorem storable_logical {n : ℕ} (operator : Connective) {operands : List Expression}
    (h : ∀ e ∈ operands, e.toJson.Storable n) :
    (toJson (.logical operator operands)).Storable (n + 2) := by
  rw [toJson, toJsonAll_eq_map]
  refine .obj (by simp) ?_
  simp only [List.forall_mem_cons]
  exact ⟨.str _, .str _, .arr (by simpa using h), by simp⟩

theorem mem_ofNodes? {ds : List Json.Draft} {es : List Expression} (h : ofNodes? ds = some es) :
    ∀ e ∈ es, ∃ d ∈ ds, ofNode? d = some e := by
  induction ds generalizing es with
  | nil =>
    rw [ofNodes?, Option.some.injEq] at h
    simp [← h]
  | cons d ds ih =>
    rw [ofNodes?] at h
    split at h
    case h_1 e es' he hes =>
      cases h
      rw [List.forall_mem_cons]
      refine ⟨⟨d, List.mem_cons_self, he⟩, fun e' he' => ?_⟩
      obtain ⟨d', hd', h'⟩ := ih hes e' he'
      exact ⟨d', List.mem_cons_of_mem _ hd', h'⟩
    case h_2 => cases h

theorem mem_operandMembers? {ms : List (Json.Token String × Json.Draft)}
    {result : Option (List Expression)} (h : result ∈ operandMembers? ms) :
    ∃ m ∈ ms, operands? m.2 = result := by
  induction ms with
  | nil =>
    rw [operandMembers?] at h
    simp at h
  | cons m ms ih =>
    have further : result ∈ operandMembers? ms → ∃ m' ∈ m :: ms, operands? m'.2 = result := by
      intro h
      obtain ⟨m', hm', hr⟩ := ih h
      exact ⟨m', List.mem_cons_of_mem _ hm', hr⟩
    rw [operandMembers?] at h
    split at h
    · split_ifs at h
      · rcases List.mem_cons.mp h with rfl | h
        · exact ⟨m, List.mem_cons_self, rfl⟩
        · exact further h
      · exact further h
    · exact further h

theorem ofNodes?_of_operands? {d : Json.Draft} {es : List Expression}
    (h : operands? d = some es) : ∃ ds close, d = .array ds close ∧ ofNodes? ds = some es := by
  cases d with
  | array ds close =>
    rw [operands?] at h
    exact ⟨ds, close, rfl, h⟩
  | _ => simp [operands?] at h

/-- A node is a reference, or its operands are nodes of an array that is a part of it. -/
theorem ofNode?_cases {d : Json.Draft} {e : Expression} (h : ofNode? d = some e) :
    (∃ r, e = .ruleRef r) ∨ ∃ operator es ds close, e = .logical operator es ∧
      (Json.Draft.array ds close).Child d ∧ ofNodes? ds = some es := by
  have reference : ∀ {id version : Json.Draft}, refOfDrafts? id version = some e →
      ∃ r, e = .ruleRef r := by
    intro id version h
    unfold refOfDrafts? at h
    split at h
    · exact ⟨_, (Option.some.inj h).symm⟩
    · cases h
  cases d with
  | object ms close =>
    rw [ofNode?] at h
    split at h
    · split at h
      · exact .inl (reference h)
      · cases h
    · split at h
      case h_1 operator es _ hes =>
        cases h
        have hmem : some es ∈ operandMembers? ms := by
          rw [hes]
          exact List.mem_singleton_self _
        obtain ⟨⟨t, d⟩, hm, hop⟩ := mem_operandMembers? hmem
        obtain ⟨ds, close', rfl, hds⟩ := ofNodes?_of_operands? hop
        exact .inr ⟨operator, es, ds, close', rfl, .member t hm, hds⟩
      · cases h
    · cases h
  | array items close =>
    rw [ofNode?.eq_def] at h
    dsimp only at h
    split at h
    · split at h
      · exact .inl (reference h)
      · split at h
        case h_1 operator es _ hes =>
          cases h
          obtain ⟨ds, close', rfl, hds⟩ := ofNodes?_of_operands? hes
          exact .inr ⟨_, _, ds, close', rfl, .item (by simp), hds⟩
        · cases h
      · cases h
    · cases h
  | _ => simp [ofNode?] at h

/-- A tree that was read from a value is nested no deeper than the value. -/
theorem storable_of_ofNode? {n : ℕ} {v : Json} (hv : v.Storable n) {e : Expression}
    (h : ofNode? v.toDraft = some e) : e.toJson.Storable n := by
  induction n using Nat.strongRecOn generalizing v e with
  | _ n ih =>
    rcases ofNode?_cases h with ⟨r, rfl⟩ | ⟨operator, es, ds, close, rfl, hchild, hds⟩
    · cases hv with
      | arr _ => exact storable_ruleRef _ r
      | obj _ _ => exact storable_ruleRef _ r
      | _ => simp [toDraft, ofNode?] at h
    · obtain ⟨k, w, rfl, hw, hstorable⟩ := hv.child hchild
      cases hstorable with
      | @arr k' xs hxs =>
        rw [toDraft, Json.toDraftItems_eq_map] at hw
        cases hw
        refine storable_logical operator fun e he => ?_
        obtain ⟨d, hd, hnode⟩ := mem_ofNodes? hds e he
        obtain ⟨x, hx, rfl⟩ := List.mem_map.mp hd
        exact ih k' (by omega) (hxs x hx) hnode
      | _ => cases hw

end Expression

namespace Ruleset

theorem sortKeys_toJson (r : Ruleset) : r.toJson.sortKeys = .obj [("root", r.root.toJson.sortKeys)] :=
  rfl

theorem ofDraft_sortKeys {r : Ruleset} (h : r.toJson.Storable Json.Draft.depthLimit) :
    ofDraft r.toJson.sortKeys.toDraft = .ok r := by
  have hstorable : r.root.toJson.Storable (Json.Draft.depthLimit + 1) := by
    cases h with
    | obj _ hall => exact (hall ("root", r.root.toJson) List.mem_cons_self).mono (by decide)
  have hroot := Expression.ofDraft_sortKeys hstorable
  rw [sortKeys_toJson]
  refine bind_of_ok (Json.record_obj (by simp) ?_ (by simp [Field.required])) ?_
  · simp only [List.forall_mem_cons]
    exact ⟨Json.fits_required rfl hroot, by simp⟩
  · exact bind_of_ok hroot rfl

end Ruleset
end Verdict
