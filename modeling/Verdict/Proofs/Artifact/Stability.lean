import Verdict.Proofs.Compilation.FieldOrder

/-!
# Envelopes written again

The texts that are read as an artifact are many more than the texts that are written: records may be
arrays, members may be unknown, repeated, left out or in any order. One reading settles all of this.
What was read is written in a form that is read as the very same artifact.
-/

namespace Verdict

open Results

/-! ## Settled artifacts -/

namespace EvidenceType

variable {t t' : EvidenceType}

theorem InKeyOrder.distinct (h : t.InKeyOrder) : t.fields.Distinct := h.imp fun hlt => hlt.ne

/-- The order of the keys leaves one order for the fields. -/
theorem InKeyOrder.eq_of_sameEntries (h : t.InKeyOrder) (h' : t'.InKeyOrder)
    (hsame : t.fields.sameEntries t'.fields = true) : t' = t := by
  obtain ⟨⟨entries⟩⟩ := t
  obtain ⟨⟨entries'⟩⟩ := t'
  have hp : entries'.Perm entries := h.distinct.perm_of_sameEntries hsame
  have hentries : entries' = entries :=
    hp.eq_of_pairwise' (List.pairwise_map.mp h') (List.pairwise_map.mp h)
  rw [hentries]

theorem InKeyOrder.sameEntries_self (h : t.InKeyOrder) : t.fields.sameEntries t.fields = true :=
  h.distinct.sameEntries_of_perm (.refl _)

end EvidenceType

namespace Artifact

/-- Nothing of the artifact is lost in an envelope, and nothing is put into another order. -/
structure Settled (a : Artifact) : Prop where
  portable : a.Portable
  inKeyOrder : ∀ t, a.payload = .evidenceType t → t.InKeyOrder

/-- Only the fields of an evidence type have an order that could be lost. -/
theorem Portable.settled {a : Artifact} (h : a.Portable) (hkind : a.kind ≠ .evidenceType) :
    a.Settled :=
  ⟨h, fun _ ht => absurd (congrArg Payload.kind ht) hkind⟩

/-- Settled artifacts that count as equal are equal. -/
theorem Settled.eq_of_same {a b : Artifact} (ha : a.Settled) (hb : b.Settled)
    (hsame : a.same b = true) : b = a := by
  obtain ⟨id, version, metadata, dependencies, p⟩ := a
  obtain ⟨id', version', metadata', dependencies', q⟩ := b
  simp only [same, Bool.and_eq_true, decide_eq_true_eq] at hsame
  obtain ⟨⟨⟨⟨rfl, rfl⟩, rfl⟩, rfl⟩, hp⟩ := hsame
  cases p with
  | evidenceType t =>
    cases q with
    | evidenceType t' =>
      rw [(ha.inKeyOrder t rfl).eq_of_sameEntries (hb.inKeyOrder t' rfl) hp]
    | _ => simp [Payload.same] at hp
  | _ => cases q <;> simp_all [Payload.same]

theorem Settled.same_self {a : Artifact} (h : a.Settled) : a.same a = true := by
  obtain ⟨id, version, metadata, dependencies, p⟩ := a
  cases p with
  | evidenceType t => simp [same, Payload.same, (h.inKeyOrder t rfl).sameEntries_self]
  | _ => simp [same, Payload.same]

/-- Whatever text an artifact is read from, it is settled. -/
theorem settled_of_ofText {text : String} {a : Artifact} (h : ofText text = .ok a) : a.Settled :=
  ⟨portable_of_ofText h, fun _ ht => inKeyOrder_of_ofText h ht⟩

/-- A settled artifact is read back from its own text. -/
theorem Settled.ofText_pretty {a : Artifact} (h : a.Settled) : ofText a.toJson.pretty = .ok a := by
  obtain ⟨b, hread, -, hsame⟩ := h.portable.ofText_pretty
  rw [h.eq_of_same (settled_of_ofText hread) hsame] at hread
  exact hread

theorem Settled.ofText_compact {a : Artifact} (h : a.Settled) : ofText a.toJson.compact = .ok a :=
  h.portable.ofText_compact.trans h.ofText_pretty

/-- The artifacts that are read from texts are the settled ones. -/
theorem exists_ofText_eq_ok_iff {a : Artifact} : (∃ text, ofText text = .ok a) ↔ a.Settled :=
  ⟨fun ⟨_, h⟩ => settled_of_ofText h, fun h => ⟨_, h.ofText_compact⟩⟩

/-- An artifact that was read from any text is read from its own text as an equal artifact, which is
written as the same text again. -/
theorem ofText_toJson_of_ofText {text : String} {a : Artifact} (h : ofText text = .ok a) :
    ∃ b, ofText a.toJson.compact = .ok b ∧ ofText a.toJson.pretty = .ok b ∧ a.same b = true ∧
      b.toJson.compact = a.toJson.compact ∧ b.toJson.pretty = a.toJson.pretty := by
  have settled : a.Settled := settled_of_ofText h
  exact ⟨a, settled.ofText_compact, settled.ofText_pretty, settled.same_self, rfl, rfl⟩

/-- An envelope whose metadata and one of whose fields are arrays, with a member of its own and
without dependencies. It declares its fields twice, and the type of one of them by an object. -/
def looseEnvelope : Json :=
  .obj [("note", .arr [.null, .num (.int 7)]),
    ("payload", .obj [("fields", .bool true), ("fields", .obj [
      ("count", .arr [.str "count", .str "INTEGER", .bool true]),
      ("age", .obj [("required", .bool false), ("valueType", .obj [("STRING", .null)]),
        ("name", .str "age")])])]),
    ("metadata", .arr [.str "1.0", .num (.int 5), .str ""]),
    ("version", .num (.int 2)), ("kind", .str "EvidenceType"), ("id", .str "LOGIN")]

/-- What the envelope says. -/
def login : Artifact :=
  ⟨"LOGIN", 2, ⟨"1.0", 5, ""⟩, [], .evidenceType ⟨⟨[("age", ⟨"age", .string, false⟩),
    ("count", ⟨"count", .integer, true⟩)]⟩⟩⟩

theorem inRange_looseEnvelope : looseEnvelope.InRange := by
  simp [looseEnvelope, Json.InRange, Json.InRangeItems, Json.InRangeMembers, Json.Number.InRange]

theorem ofText_looseEnvelope : ofText looseEnvelope.compact = .ok login := by
  rw [ofText, Json.readWith_compact _ inRange_looseEnvelope]
  rfl

theorem ofText_toJson_of_ofText_login :
    looseEnvelope.compact ≠ login.toJson.compact ∧ ofText looseEnvelope.compact = .ok login ∧
      ∃ b, ofText login.toJson.compact = .ok b ∧ login.same b = true ∧
        b.toJson.compact = login.toJson.compact := by
  have settled : login.Settled := settled_of_ofText ofText_looseEnvelope
  have hne : looseEnvelope.compact ≠ login.toJson.compact := by
    rw [Ne, Json.compact_inj inRange_looseEnvelope settled.portable.storable.inRange]
    simp [looseEnvelope, toJson]
  obtain ⟨b, hread, -, hsame, htext, -⟩ := ofText_toJson_of_ofText ofText_looseEnvelope
  exact ⟨hne, ofText_looseEnvelope, b, hread, hsame, htext⟩

end Artifact
end Verdict
