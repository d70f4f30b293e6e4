import Mathlib
import Verdict.Proofs.Compilation.Portable

/-!
# The order of declared fields

A payload is read as a JSON value before anything else, and reading sorts its members. So whatever
an envelope says, the fields of an evidence type come out in the order of their names, and the order
of declaration is kept only if it is this one.
-/

namespace Verdict

open Results

/-! ## What is read -/

namespace EvidenceType

/-- The fields stand in the order of their keys. -/
def InKeyOrder (t : EvidenceType) : Prop := t.fields.keys.Pairwise (· < ·)

/-- Every field stands under its own name. -/
def Named (t : EvidenceType) : Prop := ∀ e ∈ t.fields.entries, e.2.name = e.1

theorem keys_of_fieldsOfDraft {v : Json} (hv : v.Ordered) {fields : Table String EvidenceField}
    (h : fieldsOfDraft v.toDraft = .ok fields) : fields.keys.Pairwise (· < ·) := by
  have hrefused := Json.refuse_ne_ok v.toDraft fields
  cases hv with
  | @obj ms hsorted _ =>
    rw [Json.toDraft, fieldsOfDraft, Json.toDraftMembers_eq_map] at h
    obtain ⟨es, hes, h⟩ := bind_eq_ok_iff.mp h
    obtain ⟨-, -, h⟩ := bind_eq_ok_iff.mp h
    cases h
    have hkeys : es.map (·.1) = ms.map (·.1) := by
      rw [mapM_eq_ok_iff, List.forall₂_map_left_iff] at hes
      rw [← List.forall₂_eq_eq_eq, List.forall₂_map_left_iff, List.forall₂_map_right_iff]
      refine hes.flip.imp fun e m he => ?_
      obtain ⟨k, hk, he⟩ := bind_eq_ok_iff.mp he
      obtain ⟨field, -, he⟩ := bind_eq_ok_iff.mp he
      cases hk
      cases he
      rfl
    have hes : (es.map (·.1)).Pairwise (· < ·) := by
      rw [hkeys]
      exact List.pairwise_map.mpr hsorted
    rw [Table.keys, Table.ofList_eq (hes.imp fun hlt => hlt.ne)]
    exact hes
  | _ => exact absurd h hrefused

theorem inKeyOrder_of_ofDraft {j : Json} (hj : j.Ordered) {t : EvidenceType}
    (h : ofDraft j.toDraft = .ok t) : t.InKeyOrder := by
  obtain ⟨seen, hseen, h⟩ := bind_eq_ok_iff.mp h
  obtain ⟨fields, hfields, h⟩ := bind_eq_ok_iff.mp h
  cases h
  obtain ⟨d, hchild, hread⟩ := Json.exists_child_of_get hseen hfields
  obtain ⟨v, rfl, hv⟩ := hj.child hchild
  exact keys_of_fieldsOfDraft hv hread

end EvidenceType

theorem Payload.inKeyOrder_of_ofJson? {kind : Kind} {j : Json} (hj : j.Ordered) {t : EvidenceType}
    (h : ofJson? kind j = some (.evidenceType t)) : t.InKeyOrder := by
  unfold ofJson? at h
  cases kind with
  | evidenceType =>
    obtain ⟨t', ht', heq⟩ := Option.map_eq_some_iff.mp h
    cases heq
    exact EvidenceType.inKeyOrder_of_ofDraft hj (toOption_eq_some_iff.mp ht')
  | _ =>
    obtain ⟨p, -, heq⟩ := Option.map_eq_some_iff.mp h
    cases heq

/-- Whatever the text of an envelope is, an evidence type read from it has its fields in the order
of their keys. -/
theorem Artifact.inKeyOrder_of_ofText {text : String} {a : Artifact} (h : ofText text = .ok a)
    {t : EvidenceType} (ht : a.payload = .evidenceType t) : t.InKeyOrder := by
  obtain ⟨d, j, kind, -, hj, hpayload⟩ := exists_payload_of_ofText h
  rw [ht] at hpayload
  exact Payload.inKeyOrder_of_ofJson? (Json.ordered_of_toJson hj) hpayload

/-! ## What is compiled -/

namespace EvidenceType

variable {t t' : EvidenceType}

theorem Named.requiredNames_eq (h : t.Named) :
    t.requiredNames = (t.fields.entries.filter fun e => e.2.required).map (·.1) := by
  rw [requiredNames, Table.values, List.filter_map, List.map_map]
  refine List.map_congr_left fun e he => ?_
  exact h e (List.mem_of_mem_filter he)

theorem Named.requiredNames_sorted (h : t.Named) (hsorted : t.InKeyOrder) :
    t.requiredNames.Pairwise (· < ·) := by
  rw [h.requiredNames_eq]
  exact hsorted.sublist (List.filter_sublist.map _)

section Reordered

variable (hp : t'.fields.entries.Perm t.fields.entries) (hsorted : t'.InKeyOrder)

include hp hsorted

theorem keys_eq_iff : t'.fields.keys = t.fields.keys ↔ t.InKeyOrder := by
  constructor
  · intro heq
    rw [InKeyOrder, ← heq]
    exact hsorted
  · intro h
    exact (hp.map _).eq_of_pairwise' hsorted h

theorem toJson_eq_iff : t'.toJson = t.toJson ↔ t.InKeyOrder := by
  constructor
  · intro heq
    rw [← keys_eq_iff hp hsorted]
    have hentries : (t'.fields.entries.map fun e => (e.1, e.2.toJson)) =
        t.fields.entries.map fun e => (e.1, e.2.toJson) := by
      simpa [toJson] using heq
    have hkeys := congrArg (List.map Prod.fst) hentries
    simpa [Table.keys, Function.comp_def] using hkeys
  · intro h
    have hentries : t'.fields.entries = t.fields.entries :=
      hp.eq_of_pairwise' (List.pairwise_map.mp hsorted) (List.pairwise_map.mp h)
    rw [toJson, hentries, toJson]

theorem requiredNames_eq_iff (hnamed : t.Named) :
    t'.requiredNames = t.requiredNames ↔ t.requiredNames.Pairwise (· < ·) := by
  have hnamed' : t'.Named := fun e he => hnamed e (hp.mem_iff.mp he)
  have hascending := hnamed'.requiredNames_sorted hsorted
  constructor
  · intro heq
    rwa [← heq]
  · intro h
    have hperm : t'.requiredNames.Perm t.requiredNames := ((hp.map _).filter _).map _
    exact hperm.eq_of_pairwise' hascending h

end Reordered

end EvidenceType

theorem named_of_compile {kind : Kind} {registered : Registry} {builtAt : UInt64} {source : Json}
    {a : Artifact} (h : compile kind registered builtAt source = .ok a) {t : EvidenceType}
    (ht : a.payload = .evidenceType t) : t.Named := by
  obtain ⟨d, c, -, hc, rfl⟩ := compile_eq_ok_iff.mp h
  obtain rfl : kind = .evidenceType :=
    (Compilation.body_kind hc).symm.trans (congrArg Payload.kind ht)
  obtain ⟨entries, fields, -, hfields, rfl⟩ := Compilation.evidenceType_eq_ok_iff.mp hc
  cases ht
  refine Compilation.evidenceFields_induct (P := fun t => ∀ e ∈ t.entries, e.2.name = e.1)
    (fun t field hnamed e he => ?_) (by simp [Table.empty]) hfields
  rcases Table.mem_insertEntry he with rfl | he
  · rfl
  · exact hnamed e he

/-- Artifacts that differ only in the order of declared fields are written alike if and only if
there is no difference. -/
theorem Artifact.toJson_eq_iff_of_same {a b : Artifact} (hsame : a.same b = true)
    (hkind : b.kind = a.kind) : b.toJson = a.toJson ↔ b.payload.toJson = a.payload.toJson := by
  simp only [same, Bool.and_eq_true, decide_eq_true_eq] at hsame
  obtain ⟨⟨⟨⟨hid, hversion⟩, hmetadata⟩, hdependencies⟩, -⟩ := hsame
  simp [toJson, hid, hversion, hmetadata, hdependencies, hkind]

/-- An evidence type that is compiled from a text is read back with its fields in the order of their
keys. -/
theorem exists_reordered_of_compile {origin text : String} {u : SourceUnit}
    (hu : SourceUnit.ofText origin text = .ok u) {registered : Registry} {builtAt : UInt64}
    {a : Artifact} (ha : compile u.kind registered builtAt u.content = .ok a) {t : EvidenceType}
    (ht : a.payload = .evidenceType t) :
    ∃ b t', Artifact.ofText a.toJson.pretty = .ok b ∧ b.kind = a.kind ∧ a.same b = true ∧
      b.payload = .evidenceType t' ∧ t'.fields.entries.Perm t.fields.entries ∧ t'.InKeyOrder := by
  have portable : a.Portable := SourceUnit.portable_of_ofText hu ha
  obtain ⟨b, hread, href, hsame⟩ := portable.ofText_pretty
  have hdistinct : t.fields.Distinct := by
    unfold Artifact.Portable at portable
    rw [ht] at portable
    exact portable
  obtain ⟨t', ht', hentries⟩ : ∃ t', b.payload = .evidenceType t' ∧
      t.fields.sameEntries t'.fields = true := by
    have hpayload := Artifact.payload_same hsame
    rw [ht] at hpayload
    cases hb : b.payload with
    | evidenceType t' => exact ⟨t', rfl, by simpa [hb, Payload.same] using hpayload⟩
    | _ => simp [hb, Payload.same] at hpayload
  exact ⟨b, t', hread, congrArg Reference.kind href, hsame, ht',
    hdistinct.perm_of_sameEntries hentries, Artifact.inKeyOrder_of_ofText hread ht'⟩

/-- An evidence type that is compiled from a text and read back from its envelope has the same
fields in the order of their names. So the order of declaration, the order of the required fields
and the text of the envelope are kept if and only if the names were declared in this order. -/
theorem fields_of_ofText_toJson {origin text : String} {u : SourceUnit}
    (hu : SourceUnit.ofText origin text = .ok u) {registered : Registry} {builtAt : UInt64}
    {a : Artifact} (ha : compile u.kind registered builtAt u.content = .ok a) {t : EvidenceType}
    (ht : a.payload = .evidenceType t) :
    ∃ b t', Artifact.ofText a.toJson.compact = .ok b ∧ Artifact.ofText a.toJson.pretty = .ok b ∧
      b.payload = .evidenceType t' ∧ t'.fields.entries.Perm t.fields.entries ∧ t'.InKeyOrder ∧
      (t'.fields.keys = t.fields.keys ↔ t.InKeyOrder) ∧
      (t'.requiredNames = t.requiredNames ↔ t.requiredNames.Pairwise (· < ·)) ∧
      (b.toJson.compact = a.toJson.compact ↔ t.InKeyOrder) ∧
      (b.toJson.pretty = a.toJson.pretty ↔ t.InKeyOrder) := by
  have portable : a.Portable := SourceUnit.portable_of_ofText hu ha
  obtain ⟨b, t', hread, hkind, hsame, ht', hp, hsorted⟩ := exists_reordered_of_compile hu ha ht
  have hjson : b.toJson = a.toJson ↔ t.InKeyOrder := by
    rw [Artifact.toJson_eq_iff_of_same hsame hkind, ht, ht']
    exact EvidenceType.toJson_eq_iff hp hsorted
  have ha' : a.toJson.InRange := portable.storable.inRange
  have hb' : b.toJson.InRange := (Artifact.portable_of_ofText hread).storable.inRange
  refine ⟨b, t', portable.ofText_compact.trans hread, hread, ht', hp, hsorted,
    EvidenceType.keys_eq_iff hp hsorted, ?_, ?_, ?_⟩
  · exact EvidenceType.requiredNames_eq_iff hp hsorted (named_of_compile ha ht)
  · exact (Json.compact_inj hb' ha').trans hjson
  · exact (Json.pretty_inj hb' ha').trans hjson

/-- An evidence type whose fields are not declared in the order of their names. -/
def countThenAge : SourceUnit :=
  let field (name : String) : Json :=
    .obj [("name", .str name), ("type", .str "INTEGER"), ("required", .bool true)]
  Library.readDocument .evidenceType "LOGIN" [("fields", .arr [field "count", field "age"])]

theorem ofText_countThenAge : ∃ text, SourceUnit.ofText "LOGIN" text = .ok countThenAge :=
  ⟨_, Library.ofText_readDocument (Json.Storable.mono (m := 4) (by decide)
    (by simp [Library.document, Json.Number.InRange])) rfl⟩

theorem compile_countThenAge :
    ∃ a t, compile .evidenceType Table.empty 0 countThenAge.content = .ok a ∧
      a.payload = .evidenceType t ∧ t.requiredNames = ["count", "age"] :=
  ⟨_, _, rfl, rfl, rfl⟩

theorem fields_of_ofText_toJson_countThenAge :
    ∃ text a b t t', SourceUnit.ofText "LOGIN" text = .ok countThenAge ∧
      compile .evidenceType Table.empty 0 countThenAge.content = .ok a ∧
      a.payload = .evidenceType t ∧ t.requiredNames = ["count", "age"] ∧
      Artifact.ofText a.toJson.pretty = .ok b ∧ b.payload = .evidenceType t' ∧
      t'.requiredNames ≠ t.requiredNames := by
  obtain ⟨text, hu⟩ := ofText_countThenAge
  obtain ⟨a, t, ha, ht, hnames⟩ := compile_countThenAge
  obtain ⟨b, t', -, hread, ht', -, -, -, hiff, -⟩ := fields_of_ofText_toJson hu ha ht
  refine ⟨text, a, b, t, t', hu, ha, ht, hnames, hread, ht', fun heq => ?_⟩
  rw [hiff, hnames] at heq
  exact absurd heq (by decide)

/-- The order in which fields are required is not kept by every envelope. -/
theorem not_forall_requiredNames_eq :
    ¬∀ {origin text : String} {u : SourceUnit} {registered : Registry} {builtAt : UInt64}
      {a b : Artifact} {t t' : EvidenceType}, SourceUnit.ofText origin text = .ok u →
      compile u.kind registered builtAt u.content = .ok a → a.payload = .evidenceType t →
      Artifact.ofText a.toJson.pretty = .ok b → b.payload = .evidenceType t' →
      t'.requiredNames = t.requiredNames := by
  intro hkept
  obtain ⟨text, hu⟩ := ofText_countThenAge
  obtain ⟨a, t, ha, ht, hnames⟩ := compile_countThenAge
  obtain ⟨b, t', hread, -, -, ht', hp, hsorted⟩ := exists_reordered_of_compile hu ha ht
  have heq := hkept hu ha ht hread ht'
  rw [EvidenceType.requiredNames_eq_iff hp hsorted (named_of_compile ha ht), hnames] at heq
  exact absurd heq (by decide)

end Verdict
