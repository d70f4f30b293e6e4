import Verdict.Artifact.Reference
import Verdict.Proofs.Json.Sorting
import Verdict.Proofs.Results
import Verdict.Source.Library

/-!
# Documents as they are loaded

A document that was read from JSON says its own identity. Every way of loading a library gives
documents of this kind.
-/

namespace Verdict

namespace SourceUnit

/-- What a document is compiled to is registered under this reference. -/
def reference (u : SourceUnit) : Reference := ⟨u.kind, u.id, u.version⟩

/-- The identity of a document is the one its content says. -/
def Parsed (u : SourceUnit) : Prop := ofJson u.origin u.content = .ok u

theorem ofJson_eq_ok_iff {origin : String} {content : Json} {u : SourceUnit} :
    ofJson origin content = .ok u ↔ u.origin = origin ∧ u.content = content ∧
      (∃ name, (content.get? "kind").bind Json.asString? = some name ∧
        Kind.ofName? name = some u.kind) ∧
      (content.get? "id").bind nonEmpty? = some u.id ∧
      (content.get? "version").bind version? = some u.version := by
  obtain ⟨kind, id, version, content', origin'⟩ := u
  unfold ofJson
  cases (content.get? "kind").bind Json.asString? with
  | none => simp
  | some name =>
    cases hk : Kind.ofName? name with
    | none => simp [hk]
    | some kind =>
      cases (content.get? "id").bind nonEmpty? with
      | none => simp [hk]
      | some id =>
        cases (content.get? "version").bind version? with
        | none => simp [hk]
        | some version =>
          simp [hk]
          tauto

theorem parsed_of_ofJson {origin : String} {content : Json} {u : SourceUnit}
    (h : ofJson origin content = .ok u) : u.Parsed := by
  obtain ⟨ho, hc, -⟩ := ofJson_eq_ok_iff.mp h
  rw [Parsed, ho, hc, h]

theorem ofText_eq_ok_iff {origin text : String} {u : SourceUnit} :
    ofText origin text = .ok u ↔
      ∃ content, Json.ofText text = .ok content ∧ ofJson origin content = .ok u := by
  rw [ofText, Results.bind_eq_ok_iff]
  simp only [Results.mapError_eq_ok_iff]

theorem parsed_of_ofText {origin text : String} {u : SourceUnit} (h : ofText origin text = .ok u) :
    u.Parsed := by
  obtain ⟨content, -, hu⟩ := ofText_eq_ok_iff.mp h
  exact parsed_of_ofJson hu

/-- A document is read from the text of its content, whatever the order of the members. -/
theorem ofText_compact {origin : String} {content : Json} {u : SourceUnit}
    (stored : content.Storable Json.Draft.depthLimit)
    (hu : ofJson origin content.sortKeys = .ok u) : ofText origin content.compact = .ok u :=
  ofText_eq_ok_iff.mpr ⟨_, Json.ofText_compact stored, hu⟩

end SourceUnit

namespace Library

/-- Every document was read from JSON. -/
def Parsed (l : Library) : Prop := ∀ u ∈ l.loaded, u.Parsed

/-- Every document was read from a text. -/
def FromTexts (l : Library) : Prop :=
  ∀ u ∈ l.loaded, ∃ text, SourceUnit.ofText u.origin text = .ok u

theorem FromTexts.parsed {l : Library} (h : l.FromTexts) : l.Parsed := by
  intro u hu
  obtain ⟨text, ht⟩ := h u hu
  exact SourceUnit.parsed_of_ofText ht

theorem fromTexts_of_ofTexts {texts : List (String × String)} {l : Library}
    (h : ofTexts texts = .ok l) : l.FromTexts := by
  unfold ofTexts at h
  obtain ⟨units, hu, h⟩ := Results.bind_eq_ok_iff.mp h
  cases h
  intro u hm
  obtain ⟨t, -, ht⟩ := Results.exists_of_mapM_eq_ok hu hm
  obtain ⟨content, -, hc⟩ := SourceUnit.ofText_eq_ok_iff.mp ht
  exact ⟨t.2, (SourceUnit.ofJson_eq_ok_iff.mp hc).1 ▸ ht⟩

theorem fromTexts_of_load {tree : FileTree} {path : String} {l : Library}
    (h : load tree path = .ok l) : l.FromTexts := by
  unfold load at h
  split at h
  · unfold ofArchive at h
    obtain ⟨node, -, h⟩ := Results.bind_eq_ok_iff.mp h
    split at h
    · obtain ⟨texts, -, h⟩ := Results.bind_eq_ok_iff.mp h
      exact fromTexts_of_ofTexts h
    · cases h
  · unfold ofDirectory at h
    obtain ⟨node, -, h⟩ := Results.bind_eq_ok_iff.mp h
    dsimp only at h
    split at h
    · cases h
    · obtain ⟨units, hu, h⟩ := Results.bind_eq_ok_iff.mp h
      cases h
      intro u hm
      obtain ⟨⟨names, path, content⟩, -, hf⟩ := Results.exists_of_mapM_eq_ok hu hm
      dsimp only at hf
      split at hf
      · cases hf
      · split at hf
        case h_1 text _ =>
          obtain ⟨json, -, hj⟩ := SourceUnit.ofText_eq_ok_iff.mp hf
          exact ⟨text, (SourceUnit.ofJson_eq_ok_iff.mp hj).1 ▸ hf⟩
        case h_2 => cases hf

end Library
end Verdict
