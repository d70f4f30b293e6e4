import Mathlib
import Verdict.Compilation.Library
import Verdict.Proofs.Compilation.Library
import Verdict.Proofs.Source.Loading

/-!
# Directories and the archives of them

A directory of documents and an archive of its files give the same documents in the same order, and
so the same artifacts, as long as the directory hides no file and no two documents of one kind
change places: the files of the directory are ordered name by name, those of the archive by their
whole names.
-/

namespace Verdict

open Results

/-! ## Rearrangements -/

section Rearrangements

variable {α β : Type} {r s : α → α → Prop} {f : α → β} {xs ys : List α}

/-- Two orders of the same items look the same if they agree on items that look different. -/
theorem map_eq_of_perm_of_pairwise (hp : xs.Perm ys) (hr : xs.Pairwise r) (hs : ys.Pairwise s)
    (agree : ∀ a ∈ xs, ∀ b ∈ xs, f a ≠ f b → r a b → ¬ s b a) : xs.map f = ys.map f := by
  induction xs generalizing ys with
  | nil => rw [hp.nil_eq]
  | cons x xs ih =>
    obtain ⟨before, after, rfl⟩ := List.append_of_mem (hp.subset List.mem_cons_self)
    have hrest : xs.Perm (before ++ after) := (List.perm_cons x).mp (hp.trans List.perm_middle)
    obtain ⟨hfirst, hr⟩ := List.pairwise_cons.mp hr
    obtain ⟨hbefore, hafter, hbetween⟩ := List.pairwise_append.mp hs
    -- what the second order puts before `x` looks like `x`
    have hlike : ∀ b ∈ before, f b = f x := by
      intro b hb
      by_contra hne
      have hmem : b ∈ xs := hrest.mem_iff.mpr (List.mem_append_left _ hb)
      exact agree x List.mem_cons_self b (List.mem_cons_of_mem x hmem) (Ne.symm hne)
        (hfirst b hmem) (hbetween b hb x List.mem_cons_self)
    have hcopies : before.map f = List.replicate before.length (f x) :=
      List.map_eq_replicate_iff.mpr hlike
    have hmove : f x :: (before ++ after).map f = (before ++ x :: after).map f := by
      rw [List.map_append, List.map_append, List.map_cons, hcopies, ← List.cons_append,
        ← List.replicate_succ, List.replicate_succ', List.append_assoc, List.singleton_append]
    have hs' : (before ++ after).Pairwise s := by
      refine List.pairwise_append.mpr ⟨hbefore, (List.pairwise_cons.mp hafter).2, ?_⟩
      exact fun a ha b hb => hbetween a ha b (List.mem_cons_of_mem x hb)
    rw [List.map_cons, ← hmove, ih hrest hr hs']
    exact fun a ha b hb =>
      agree a (List.mem_cons_of_mem x ha) b (List.mem_cons_of_mem x hb)

/-- Items that no other item looks like stand in the same order in lists that look the same. -/
theorem rel_of_map_eq (h : xs.map f = ys.map f) (hr : xs.Pairwise r) (hs : ys.Pairwise s) {a b : α}
    (ha : a ∈ xs) (hb : b ∈ xs) (hne : a ≠ b) (hba : ¬ r b a) (alone : ∀ c ∈ ys, f c = f a → c = a)
    (alone' : ∀ c ∈ ys, f c = f b → c = b) : s a b := by
  obtain ⟨i, hi, rfl⟩ := List.mem_iff_getElem.mp ha
  obtain ⟨j, hj, rfl⟩ := List.mem_iff_getElem.mp hb
  have hlength : xs.length = ys.length := by simpa using congrArg List.length h
  have hi' : i < ys.length := hlength ▸ hi
  have hj' : j < ys.length := hlength ▸ hj
  have hget : ∀ k (hk : k < xs.length) (hk' : k < ys.length), f ys[k] = f xs[k] := by
    intro k hk hk'
    have hmap := List.getElem_of_eq h (i := k) (by simpa using hk)
    simpa using hmap.symm
  have hij : i < j := by
    rcases lt_trichotomy i j with hlt | rfl | hlt
    · exact hlt
    · exact absurd rfl hne
    · exact absurd (List.pairwise_iff_getElem.mp hr j i hj hi hlt) hba
  have horder := List.pairwise_iff_getElem.mp hs i j hi' hj' hij
  rwa [alone _ (List.getElem_mem _) (hget i hi hi'),
    alone' _ (List.getElem_mem _) (hget j hj hj')] at horder

end Rearrangements

/-! ## Libraries that differ in labels -/

namespace LibraryResult

/-- What a document is compiled to does not depend on its label. -/
theorem add_context_congr {builtAt : UInt64} {r r' : LibraryResult} {u u' : SourceUnit}
    (hr : r.context = r'.context) (hu : u.unlabelled = u'.unlabelled) :
    (r.add builtAt u).context = (r'.add builtAt u').context := by
  have hkind : u.kind = u'.kind := (congrArg SourceUnit.kind hu :)
  have hcontent : u.content = u'.content := (congrArg SourceUnit.content hu :)
  unfold add
  rw [hr, hkind, hcontent]
  split <;> rfl

theorem foldl_context_congr {builtAt : UInt64} {us us' : List SourceUnit}
    (h : List.Forall₂ (fun u u' => u.unlabelled = u'.unlabelled) us us') {r r' : LibraryResult}
    (hr : r.context = r'.context) :
    (us.foldl (add builtAt) r).context = (us'.foldl (add builtAt) r').context := by
  induction h generalizing r r' with
  | nil => exact hr
  | cons hu _ ih => exact ih (add_context_congr hr hu)

end LibraryResult

namespace Library

open FileTree

/-- The libraries have the same documents in the same order within every kind. -/
def SameDocuments (l l' : Library) : Prop :=
  ∀ kind, (l.ofKind kind).map SourceUnit.unlabelled = (l'.ofKind kind).map SourceUnit.unlabelled

variable {l l' : Library}

/-- The same documents are registered as the same artifacts. -/
theorem SameDocuments.context_eq (h : SameDocuments l l') (builtAt : UInt64) (c : Context) :
    (compileLibrary builtAt l c).context = (compileLibrary builtAt l' c).context := by
  apply LibraryResult.foldl_context_congr _ rfl
  have hunits : l.units.map SourceUnit.unlabelled = l'.units.map SourceUnit.unlabelled := by
    rw [units, units, List.map_flatMap, List.map_flatMap]
    exact List.flatMap_congr fun kind _ => h kind
  exact forall₂_of_map_eq hunits fun _ _ _ _ hu => hu

theorem map_ofKind (l : Library) (kind : Kind) : (l.ofKind kind).map SourceUnit.unlabelled =
    (l.loaded.map SourceUnit.unlabelled).filter fun u => u.kind = kind := by
  rw [List.filter_map]
  rfl

theorem sameDocuments_of_map_eq
    (h : l.loaded.map SourceUnit.unlabelled = l'.loaded.map SourceUnit.unlabelled) :
    SameDocuments l l' := by
  intro kind
  rw [map_ofKind, map_ofKind, h]

theorem map_ofKind_eq {ds : List (List String × SourceUnit)}
    (h : l.loaded.map SourceUnit.unlabelled = ds.map (·.2)) (kind : Kind) :
    (l.ofKind kind).map SourceUnit.unlabelled = (ds.filter fun d => d.2.kind = kind).map (·.2) := by
  rw [map_ofKind, h, List.filter_map]
  rfl

/-! ## Directories and archives -/

/-- Both paths can be loaded, and they give the same documents and the same artifacts. -/
def LoadAlike (tree : FileTree) (path path' : String) : Prop :=
  ∃ l l', load tree path = .ok l ∧ load tree path' = .ok l' ∧ SameDocuments l l' ∧
    ∀ builtAt c, (compileLibrary builtAt l c).context = (compileLibrary builtAt l' c).context

/-- A directory in which every file is a document, and an archive that holds its files. -/
structure Packed (tree : FileTree) (dir zip : String) (root : FileTree) (entries : List Entry) :
    Prop where
  directory : tree.get dir = .ok root
  archive : tree.get zip = .ok (.file (.archive entries))
  named : isArchivePath zip = true
  archived : Archived entries root
  sources : root.HoldsSources
  reachable : ∀ x ∈ root.walk [], pathFault? (x.1.foldl join dir) = none

namespace Packed

variable {tree root : FileTree} {dir zip : String} {entries : List Entry}

/-- No two files of an archived directory have the same joined name. -/
theorem eq_of_joined (packed : Packed tree dir zip root entries)
    {a b : List String × SourceUnit} (ha : a ∈ root.documents) (hb : b ∈ root.documents)
    (h : joined a.1 = joined b.1) : a = b := by
  have hentries : ((entries.filter fun e => !e.isDirectory).map Entry.name).Nodup :=
    packed.archived.names.sublist (List.filter_sublist.map _)
  have hnames : (root.documents.map fun d => joined d.1).Nodup := by
    rw [documents_eq_map packed.sources]
    rw [(packed.archived.files.map _).nodup_iff] at hentries
    rw [List.map_map] at hentries ⊢
    exact hentries
  exact List.inj_on_of_nodup_map hnames ha hb h

/-- The names on the way to a document. -/
theorem names (packed : Packed tree dir zip root entries) {d : List String × SourceUnit}
    (hd : d ∈ root.documents) : d.1 ≠ [] ∧ ∀ name ∈ d.1, '/' ∉ name.toList := by
  rw [documents_eq_map packed.sources] at hd
  obtain ⟨f, hf, rfl⟩ := List.mem_map.mp hd
  refine ⟨?_, packed.sources.slashless f hf⟩
  rintro hnil
  obtain ⟨name, hlast, -⟩ := packed.sources.ending f hf
  rw [show f.1 = [] from hnil] at hlast
  cases hlast

/-- A directory that hides nothing and keeps different documents of a kind in their places gives the
same as the archive of it. -/
theorem loadAlike (packed : Packed tree dir zip root entries) (plain : isArchivePath dir = false)
    (seen : ∀ d ∈ root.documents, ¬ Hidden d.1)
    (kept : ∀ a ∈ root.documents, ∀ b ∈ root.documents, a.2.kind = b.2.kind →
      Overtaken a.1 b.1 → a.2 = b.2) : LoadAlike tree dir zip := by
  obtain ⟨l, ds, hl, hds, hsorted, hunits⟩ :=
    load_directory packed.directory plain packed.sources packed.reachable
  obtain ⟨l', ds', hl', hds', hsorted', hunits'⟩ :=
    load_archive packed.archive packed.named packed.archived packed.sources
  rw [List.filter_eq_self.mpr (by simpa using seen)] at hds
  have hsame : SameDocuments l l' := by
    intro kind
    rw [map_ofKind_eq hunits, map_ofKind_eq hunits']
    apply map_eq_of_perm_of_pairwise ((hds.trans hds'.symm).filter _) (hsorted.filter _)
      (hsorted'.filter _)
    intro a ha b hb hne hle
    obtain ⟨ha, hakind⟩ := List.mem_filter.mp ha
    obtain ⟨hb, hbkind⟩ := List.mem_filter.mp hb
    have ha := hds.mem_iff.mp ha
    have hb := hds.mem_iff.mp hb
    have hdiffer : a.1 ≠ b.1 := fun h =>
      hne (congrArg Prod.snd (packed.eq_of_joined ha hb (congrArg joined h)))
    have hkeeps : ¬ Overtaken a.1 b.1 := fun h =>
      hne (kept a ha b hb (by simp_all) h)
    exact not_le.mpr (joined_lt_joined (packed.names ha).1 (packed.names hb).2
      (lt_of_le_of_ne hle hdiffer) hkeeps)
  exact ⟨l, l', hl, hl', hsame, hsame.context_eq⟩

/-- A directory that is named like an archive is not loaded. -/
theorem plain_of_load (packed : Packed tree dir zip root entries) {l : Library}
    (h : load tree dir = .ok l) : isArchivePath dir = false := by
  by_contra hplain
  rw [load, if_pos (by simpa using hplain)] at h
  unfold ofArchive at h
  rw [packed.directory] at h
  cases root with
  | directory children => cases h
  | file c =>
    -- the place that is loaded has no name below itself
    obtain ⟨name, hlast, -⟩ := packed.sources.ending ([], c) (by simp [files, walk, content?])
    cases hlast

/-- What it means for the documents of the tree that both ways give the same. -/
theorem orders_of_loadAlike (packed : Packed tree dir zip root entries)
    (h : LoadAlike tree dir zip) : ∃ ds ds' : List (List String × SourceUnit),
      ds.Perm (root.documents.filter fun d => ¬ Hidden d.1) ∧ ds.Pairwise (fun a b => a.1 ≤ b.1) ∧
      ds'.Perm root.documents ∧ ds'.Pairwise (fun a b => joined a.1 ≤ joined b.1) ∧
      ∀ kind, (ds.filter fun d => d.2.kind = kind).map (·.2) =
        (ds'.filter fun d => d.2.kind = kind).map (·.2) := by
  obtain ⟨l, l', hl, hl', hsame, -⟩ := h
  obtain ⟨m, ds, hm, hds, hsorted, hunits⟩ := load_directory packed.directory
    (packed.plain_of_load hl) packed.sources packed.reachable
  obtain ⟨m', ds', hm', hds', hsorted', hunits'⟩ :=
    load_archive packed.archive packed.named packed.archived packed.sources
  obtain rfl : m = l := Except.ok.inj (hm.symm.trans hl)
  obtain rfl : m' = l' := Except.ok.inj (hm'.symm.trans hl')
  refine ⟨ds, ds', hds, hsorted, hds', hsorted', fun kind => ?_⟩
  rw [← map_ofKind_eq hunits, ← map_ofKind_eq hunits', hsame kind]

theorem seen_of_loadAlike (packed : Packed tree dir zip root entries)
    (h : LoadAlike tree dir zip) : ∀ d ∈ root.documents, ¬ Hidden d.1 := by
  obtain ⟨ds, ds', hds, -, hds', -, hsame⟩ := packed.orders_of_loadAlike h
  intro d hd hhidden
  have hlength := congrArg List.length (hsame d.2.kind)
  rw [List.length_map, List.length_map, (hds.filter _).length_eq, (hds'.filter _).length_eq,
    List.filter_comm] at hlength
  have hmem : d ∈ root.documents.filter fun e => e.2.kind = d.2.kind :=
    List.mem_filter.mpr ⟨hd, decide_eq_true rfl⟩
  have hall := List.length_filter_eq_length_iff.mp hlength d hmem
  simp [hhidden] at hall

/-- Two documents of a kind that change places give different results, unless one of them occurs
again. -/
theorem repeated_of_loadAlike (packed : Packed tree dir zip root entries)
    (h : LoadAlike tree dir zip) {a b : List String × SourceUnit} (ha : a ∈ root.documents)
    (hb : b ∈ root.documents) (hkind : a.2.kind = b.2.kind) (hover : Overtaken a.1 b.1) :
    ∃ d ∈ root.documents, (d ≠ a ∧ d.2 = a.2) ∨ (d ≠ b ∧ d.2 = b.2) := by
  by_contra hnone
  push Not at hnone
  have seen := packed.seen_of_loadAlike h
  obtain ⟨ds, ds', hds, hsorted, hds', hsorted', hsame⟩ := packed.orders_of_loadAlike h
  rw [List.filter_eq_self.mpr (by simpa using seen)] at hds
  have halone : ∀ c ∈ ds'.filter fun d => d.2.kind = a.2.kind,
      (c.2 = a.2 → c = a) ∧ (c.2 = b.2 → c = b) := by
    intro c hc
    have hc := hnone c (hds'.mem_iff.mp (List.mem_filter.mp hc).1)
    exact ⟨fun heq => by_contra fun hne => hc.1 hne heq,
      fun heq => by_contra fun hne => hc.2 hne heq⟩
  have hle : joined a.1 ≤ joined b.1 :=
    rel_of_map_eq (hsame a.2.kind) (hsorted.filter _) (hsorted'.filter _)
      (List.mem_filter.mpr ⟨hds.mem_iff.mpr ha, decide_eq_true rfl⟩)
      (List.mem_filter.mpr ⟨hds.mem_iff.mpr hb, decide_eq_true hkind.symm⟩)
      (fun heq => hover.lt.ne (congrArg Prod.fst heq)) (not_le.mpr hover.lt)
      (fun c hc => (halone c hc).1) fun c hc => (halone c hc).2
  exact absurd hover.joined_lt (not_lt.mpr hle)

end Packed

/-- A directory of documents and the archive of it give the same documents in the same order within
every kind, and so the same artifacts, if the directory is not named like an archive, no file of it
is hidden, and no two different documents of a kind change places. Otherwise they do not, unless a
document that changes places occurs again. -/
theorem load_packed {tree root : FileTree} {dir zip : String} {entries : List Entry}
    (packed : Packed tree dir zip root entries) :
    (∃ l, load tree zip = .ok l) ∧
      ((∃ l, load tree dir = .ok l) ↔ isArchivePath dir = false) ∧
      (isArchivePath dir = false → (∀ d ∈ root.documents, ¬ Hidden d.1) →
        (∀ a ∈ root.documents, ∀ b ∈ root.documents, a.2.kind = b.2.kind →
          Overtaken a.1 b.1 → a.2 = b.2) → LoadAlike tree dir zip) ∧
      (LoadAlike tree dir zip → isArchivePath dir = false ∧
        (∀ d ∈ root.documents, ¬ Hidden d.1) ∧
        ∀ a ∈ root.documents, ∀ b ∈ root.documents, a.2.kind = b.2.kind → Overtaken a.1 b.1 →
          ∃ d ∈ root.documents, (d ≠ a ∧ d.2 = a.2) ∨ (d ≠ b ∧ d.2 = b.2)) := by
  refine ⟨?_, ⟨?_, ?_⟩, packed.loadAlike, ?_⟩
  · obtain ⟨l, -, hl, -⟩ :=
      load_archive packed.archive packed.named packed.archived packed.sources
    exact ⟨l, hl⟩
  · rintro ⟨l, hl⟩
    exact packed.plain_of_load hl
  · intro plain
    obtain ⟨l, -, hl, -⟩ := load_directory packed.directory plain packed.sources packed.reachable
    exact ⟨l, hl⟩
  · intro alike
    obtain ⟨l, l', hl, -⟩ := id alike
    exact ⟨packed.plain_of_load hl, packed.seen_of_loadAlike alike,
      fun a ha b hb => packed.repeated_of_loadAlike alike ha hb⟩

/-! ### Two rules of one identity -/

/-- A directory and the archive of it, side by side. -/
def pack (root : FileTree) : FileTree :=
  directory [("src", root),
    ("src.zip", file (.archive (root.files.map fun f => ⟨joined f.1, f.2.text?⟩)))]

/-- A document is archived as a file. -/
theorem isDirectory_joined {root : FileTree} (sources : root.HoldsSources)
    {f : List String × Content} (hf : f ∈ root.files) :
    (⟨joined f.1, f.2.text?⟩ : Entry).isDirectory = false := by
  obtain ⟨name, hlast, hending⟩ := sources.ending f hf
  obtain ⟨start, hstart⟩ := (Text.hasEnding_iff.mp hending).trans (getLast_suffix_joined hlast)
  rw [Entry.isDirectory, ← hstart]
  simp [List.getLast?_append]

theorem packed_pack {root : FileTree} (sources : root.HoldsSources)
    (names : (root.files.map fun f => joined f.1).Nodup)
    (reachable : ∀ x ∈ root.walk [], pathFault? (x.1.foldl join "src") = none) :
    Packed (pack root) "src" "src.zip" root (root.files.map fun f => ⟨joined f.1, f.2.text?⟩) where
  directory := by
    cases root <;> rfl
  archive := rfl
  named := by decide
  archived := by
    refine ⟨by rwa [List.map_map], ?_⟩
    rw [List.filter_eq_self.mpr]
    intro e he
    obtain ⟨f, hf, rfl⟩ := List.mem_map.mp he
    simp [isDirectory_joined sources hf]
  sources := sources
  reachable := reachable

/-- A rule that a count has to stay above a limit. -/
def limitRule (limit : Int) : SourceUnit :=
  readDocument .rule "limit" [("type", .str "THRESHOLD"), ("input", .str "count"),
    ("operator", .str ">"), ("value", .num (.int limit))]

/-- A file that holds the rule. -/
def limitFile (limit : Int) : Content :=
  .plain (some (document .rule "limit" [("type", .str "THRESHOLD"), ("input", .str "count"),
    ("operator", .str ">"), ("value", .num (.int limit))]).content.compact)

/-- Two files that hold the same rule with different limits, the first of them below `a`. -/
def limits (inner outer : String) : FileTree :=
  directory [("a", directory [(inner, file (limitFile 3))]), (outer, file (limitFile 5))]

theorem document_limitFile : (limitFile 3).document? = some (limitRule 3).unlabelled ∧
    (limitFile 5).document? = some (limitRule 5).unlabelled := by
  constructor
  all_goals
    refine Content.document?_of_ofText rfl (ofText_readDocument ?_ rfl)
    refine Json.Storable.mono (m := 6) (by decide) ?_
    simp [Library.document, Json.Number.InRange]

theorem files_limits (inner outer : String) : (limits inner outer).files =
    [(["a", inner], limitFile 3), ([outer], limitFile 5)] := rfl

theorem documents_limits (inner outer : String) : (limits inner outer).documents =
    [(["a", inner], (limitRule 3).unlabelled), ([outer], (limitRule 5).unlabelled)] := by
  rw [documents, files_limits]
  simp [document_limitFile]

theorem packed_limits (inner outer : String) (slashless : '/' ∉ inner.toList ∧ '/' ∉ outer.toList)
    (ending : Text.hasEnding ".json".toList inner.toList = true ∧
      Text.hasEnding ".json".toList outer.toList = true)
    (names : joined ["a", inner] ≠ joined [outer])
    (reachable : ∀ x ∈ (limits inner outer).walk [], pathFault? (x.1.foldl join "src") = none) :
    Packed (pack (limits inner outer)) "src" "src.zip" (limits inner outer)
      ((limits inner outer).files.map fun f => ⟨joined f.1, f.2.text?⟩) := by
  refine packed_pack ⟨?_, ?_, ?_⟩ ?_ reachable
  all_goals simp only [files_limits]
  · simp [slashless]
  · simpa using ending
  · simp [document_limitFile]
  · simp [names]

theorem load_packed_limits :
    Packed (pack (limits "b.json" "c.json")) "src" "src.zip" (limits "b.json" "c.json")
        ((limits "b.json" "c.json").files.map fun f => ⟨joined f.1, f.2.text?⟩) ∧
      LoadAlike (pack (limits "b.json" "c.json")) "src" "src.zip" := by
  have packed := packed_limits "b.json" "c.json" (by decide) (by decide) (by decide) (by decide)
  have hself (names : List String) : ¬ Overtaken names names := fun h => lt_irrefl _ h.lt
  have hdown : ¬ Overtaken ["a", "b.json"] ["c.json"] := fun h => absurd h.joined_lt (by decide)
  have hup : ¬ Overtaken ["c.json"] ["a", "b.json"] := fun h => absurd h.lt (by decide)
  refine ⟨packed, (load_packed packed).2.2.1 (by decide) ?_ ?_⟩
  · rw [documents_limits]
    simp [Hidden]
  · rw [documents_limits]
    simp [hself, hdown, hup]

/-- The file below `a` comes first in the directory, and last in the archive. -/
theorem loaded_limits : ∃ l l', load (pack (limits "b.json" "a.json")) "src" = .ok l ∧
    load (pack (limits "b.json" "a.json")) "src.zip" = .ok l' ∧
    l.loaded.map SourceUnit.unlabelled = [limitRule 3, limitRule 5].map SourceUnit.unlabelled ∧
    l'.loaded.map SourceUnit.unlabelled = [limitRule 5, limitRule 3].map SourceUnit.unlabelled := by
  have packed := packed_limits "b.json" "a.json" (by decide) (by decide) (by decide) (by decide)
  obtain ⟨l, ds, hl, hds, hsorted, hunits⟩ :=
    load_directory packed.directory (by decide) packed.sources packed.reachable
  obtain ⟨l', ds', hl', hds', hsorted', hunits'⟩ :=
    load_archive packed.archive packed.named packed.archived packed.sources
  have hseen : ∀ d ∈ (limits "b.json" "a.json").documents, ¬ Hidden d.1 := by
    rw [documents_limits]
    simp [Hidden]
  rw [List.filter_eq_self.mpr (by simpa using hseen)] at hds
  have hname : "a.json".toList = "a".toList ++ '.' :: "json".toList := by decide
  have hover : Overtaken ["a", "b.json"] ["a.json"] := .sibling (by simp) hname (by decide)
  have hordered : ds = (limits "b.json" "a.json").documents := by
    refine hds.eq_of_pairwise ?_ hsorted ?_
    · intro a b ha hb hab hba
      exact packed.eq_of_joined (hds.mem_iff.mp ha) hb (congrArg joined (le_antisymm hab hba))
    · rw [documents_limits]
      simp [hover.lt.le]
  have hreversed : ds' = (limits "b.json" "a.json").documents.reverse := by
    refine (hds'.trans (List.reverse_perm _).symm).eq_of_pairwise ?_ hsorted' ?_
    · intro a b ha hb hab hba
      exact packed.eq_of_joined (hds'.mem_iff.mp ha) (List.mem_reverse.mp hb) (le_antisymm hab hba)
    · rw [documents_limits]
      simp [hover.joined_lt.le]
  rw [hordered, documents_limits] at hunits
  rw [hreversed, documents_limits] at hunits'
  exact ⟨l, l', hl, hl', hunits, hunits'⟩

/-- The literal that a registered rule compares with. -/
def limitOf (x : Except CompileError Artifact) : Option Scalar :=
  x.toOption.bind fun a => a.payload.asRule?.map (·.value)

theorem limitOf_compile {limit : Int} (h : Scalar.fitsInt64 limit = true) (registered : Registry) :
    limitOf (compile .rule registered 0 (limitRule limit).content) = some (.integer limit) := by
  have hvalue : limitOf (compile .rule registered 0 (limitRule limit).content) =
      some (if Scalar.fitsInt64 limit then .integer limit else .decimal (.ofInt limit)) := rfl
  rw [hvalue, if_pos h]

/-- Of two rules of one identity the last one is registered. -/
theorem limitOf_resolve {l : Library} {first last : Int} (h : Scalar.fitsInt64 last = true)
    (hl : l.loaded.map SourceUnit.unlabelled =
      [limitRule first, limitRule last].map SourceUnit.unlabelled) :
    limitOf ((compileLibrary 0 l .empty).context.resolve (limitRule last).reference) =
      some (.integer last) := by
  have parsed : Parsed ⟨[limitRule first, limitRule last]⟩ := by
    simp only [Parsed, List.forall_mem_cons]
    exact ⟨rfl, rfl, by simp⟩
  obtain ⟨a, ha, hvalue⟩ := Option.bind_eq_some_iff.mp
    (limitOf_compile h (tasks 0 ⟨[limitRule first, limitRule last]⟩))
  have hresolve := (parsed.accounts.resolve_eq_ok_iff _ a).mpr
    ⟨[limitRule first], limitRule last, [], rfl, rfl, toOption_eq_some_iff.mp ha, by simp⟩
  have hsame : SameDocuments l ⟨[limitRule first, limitRule last]⟩ := sameDocuments_of_map_eq hl
  rw [hsame.context_eq, hresolve]
  exact hvalue

/-- A directory and the archive of it may register different artifacts under one reference, and the
archive may give a document that the directory does not. -/
theorem not_loadAlike_limits :
    isArchivePath "src" = false ∧
      Packed (pack (limits "b.json" "a.json")) "src" "src.zip" (limits "b.json" "a.json")
        ((limits "b.json" "a.json").files.map fun f => ⟨joined f.1, f.2.text?⟩) ∧
      (∃ l l', load (pack (limits "b.json" "a.json")) "src" = .ok l ∧
        load (pack (limits "b.json" "a.json")) "src.zip" = .ok l' ∧
        limitOf ((compileLibrary 0 l .empty).context.resolve ⟨.rule, "limit", 1⟩) =
          some (.integer 5) ∧
        limitOf ((compileLibrary 0 l' .empty).context.resolve ⟨.rule, "limit", 1⟩) =
          some (.integer 3)) ∧
      ¬ LoadAlike (pack (limits "b.json" "a.json")) "src" "src.zip" ∧
      Packed (pack (limits ".json" "c.json")) "src" "src.zip" (limits ".json" "c.json")
        ((limits ".json" "c.json").files.map fun f => ⟨joined f.1, f.2.text?⟩) ∧
      ¬ LoadAlike (pack (limits ".json" "c.json")) "src" "src.zip" := by
  have packed := packed_limits "b.json" "a.json" (by decide) (by decide) (by decide) (by decide)
  have packed' := packed_limits ".json" "c.json" (by decide) (by decide) (by decide) (by decide)
  obtain ⟨l, l', hl, hl', hunits, hunits'⟩ := loaded_limits
  have hlast := limitOf_resolve (by decide) hunits
  have hlast' := limitOf_resolve (by decide) hunits'
  refine ⟨by decide, packed, ⟨l, l', hl, hl', hlast, hlast'⟩, ?_, packed', ?_⟩
  · rintro ⟨m, m', hm, hm', -, hcontext⟩
    obtain rfl : m = l := Except.ok.inj (hm.symm.trans hl)
    obtain rfl : m' = l' := Except.ok.inj (hm'.symm.trans hl')
    rw [hcontext] at hlast
    exact absurd (hlast.symm.trans hlast') (by decide)
  · intro alike
    have hseen := packed'.seen_of_loadAlike alike
    rw [documents_limits] at hseen
    exact hseen _ List.mem_cons_self rfl

end Library
end Verdict
