import Mathlib
import Verdict.Proofs.Archive.Consistency
import Verdict.Proofs.Source
import Verdict.Proofs.Source.Order
import Verdict.Proofs.Text.Segments

/-!
# Directories and archives of documents

A directory in which every file is a document is loaded, and so is an archive of its files. Either
way the documents are those of the files, except that a directory does not give a file whose whole
name is the extension. The directory gives them in the order of the paths, the archive in the order
of the joined names.
-/

namespace Verdict

open Results

/-! ## Documents -/

namespace SourceUnit

/-- A document without the place it came from. -/
def unlabelled (u : SourceUnit) : SourceUnit := { u with origin := "" }

/-- What a text is read as depends on the place it comes from only in the label. -/
theorem ofText_eq_ok_iff_unlabelled {origin text : String} {u : SourceUnit} :
    ofText origin text = .ok u ↔ u.origin = origin ∧ ofText "" text = .ok u.unlabelled := by
  simp only [ofText_eq_ok_iff, ofJson_eq_ok_iff, unlabelled, true_and]
  constructor
  · rintro ⟨content, hjson, horigin, hfields⟩
    exact ⟨horigin, content, hjson, hfields⟩
  · rintro ⟨horigin, content, hjson, hfields⟩
    exact ⟨content, hjson, horigin, hfields⟩

theorem exists_ofText {text : String} {u : SourceUnit} (h : ofText "" text = .ok u)
    (origin : String) : ∃ v, ofText origin text = .ok v := by
  refine ⟨{ u with origin }, ofText_eq_ok_iff_unlabelled.mpr ⟨rfl, ?_⟩⟩
  have horigin : u.origin = "" := (ofText_eq_ok_iff_unlabelled.mp h).1
  simpa [unlabelled, ← horigin] using h

end SourceUnit

/-- The document that a file holds. -/
def Content.document? (c : Content) : Option SourceUnit :=
  c.text?.bind fun text => (SourceUnit.ofText "" text).toOption

theorem Content.document?_eq_some_iff {c : Content} {u : SourceUnit} : c.document? = some u ↔
    ∃ text, c.text? = some text ∧ SourceUnit.ofText "" text = .ok u := by
  simp [document?, Option.bind_eq_some_iff, toOption_eq_some_iff]

theorem Content.document?_of_ofText {c : Content} {text path : String} {u : SourceUnit}
    (htext : c.text? = some text) (h : SourceUnit.ofText path text = .ok u) :
    c.document? = some u.unlabelled :=
  document?_eq_some_iff.mpr ⟨text, htext, (SourceUnit.ofText_eq_ok_iff_unlabelled.mp h).2⟩

namespace FileTree

/-- The files of a tree, each with the names on the way to it. -/
def files (t : FileTree) : List (List String × Content) :=
  (t.walk []).filterMap fun x => x.2.content?.map fun c => (x.1, c)

/-- The documents that the files of a tree hold. -/
def documents (t : FileTree) : List (List String × SourceUnit) :=
  t.files.filterMap fun f => f.2.document?.map fun u => (f.1, u)

/-- Every file of the tree holds a document and is named as one. -/
structure HoldsSources (t : FileTree) : Prop where
  slashless : ∀ f ∈ t.files, ∀ name ∈ f.1, '/' ∉ name.toList
  ending : ∀ f ∈ t.files, ∃ name, f.1.getLast? = some name ∧
    Text.hasEnding ".json".toList name.toList = true
  readable : ∀ f ∈ t.files, ∃ u, f.2.document? = some u

/-- The file is hidden: its name is the extension and nothing else. -/
def Hidden (names : List String) : Prop := names.getLast? = some ".json"

instance (names : List String) : Decidable (Hidden names) := inferInstanceAs (Decidable (_ = _))

end FileTree

/-! ## Lists -/

/-- If images of two lists are the same up to the order, one list can be put in the order of the
other. -/
theorem exists_perm_of_map_perm {α β γ : Type} {f : α → γ} {g : β → γ} {xs : List α} {ys : List β}
    (h : (xs.map f).Perm (ys.map g)) : ∃ zs : List β, zs.Perm ys ∧ xs.map f = zs.map g := by
  have hcomp : Relation.Comp (fun us vs => us = List.map g vs) List.Perm (xs.map f) ys := by
    rw [List.eq_map_comp_perm]
    exact h
  obtain ⟨zs, hzs, hperm⟩ := hcomp
  exact ⟨zs, hperm, hzs⟩

/-- A list is sorted by what its items are compared by. -/
theorem pairwise_mergeSort_key {α κ : Type} [LinearOrder κ] (key : α → κ) {le : α → α → Bool}
    (hle : ∀ a b, le a b = true ↔ key a ≤ key b) (xs : List α) :
    (xs.mergeSort le).Pairwise fun a b => key a ≤ key b := by
  have htrans : ∀ a b c, le a b = true → le b c = true → le a c = true := by
    simp only [hle]
    exact fun _ _ _ => le_trans
  have htotal : ∀ a b, (le a b || le b a) = true := by
    simp only [Bool.or_eq_true, hle]
    exact fun a b => le_total (key a) (key b)
  exact (List.pairwise_mergeSort htrans htotal xs).imp (hle _ _).mp

/-! ## Files of documents -/

namespace Library

open FileTree

variable {tree root : FileTree}

/-- What a file that holds a document gives. -/
def source (c : Content) : SourceUnit := c.document?.getD default

theorem source_plain (c : Content) : source (.plain c.text?) = source c := rfl

theorem documents_eq_map (sources : root.HoldsSources) :
    root.documents = root.files.map fun f => (f.1, source f.2) := by
  unfold documents
  rw [← List.filterMap_eq_map]
  refine List.filterMap_congr fun f hf => ?_
  obtain ⟨u, hu⟩ := sources.readable f hf
  simp [source, hu]

/-- From wherever a file is read, its document is the same but for the label. -/
theorem exists_source (sources : root.HoldsSources) {f : List String × Content}
    (hf : f ∈ root.files) (origin : String) : ∃ text u, f.2.text? = some text ∧
      SourceUnit.ofText origin text = .ok u ∧ u.unlabelled = source f.2 := by
  obtain ⟨v, hv⟩ := sources.readable f hf
  obtain ⟨text, htext, hread⟩ := Content.document?_eq_some_iff.mp hv
  obtain ⟨u, hu⟩ := SourceUnit.exists_ofText hread origin
  refine ⟨text, u, htext, hu, ?_⟩
  have hsame := Content.document?_of_ofText htext hu
  rw [source, hsame, Option.getD_some]

theorem mem_files_iff {f : List String × Content} :
    f ∈ root.files ↔ (f.1, FileTree.file f.2) ∈ root.walk [] := by
  simp only [files, List.mem_filterMap, Option.map_eq_some_iff]
  constructor
  · rintro ⟨⟨names, node⟩, hx, c, hc, rfl⟩
    cases node with
    | file c' =>
      cases hc
      exact hx
    | directory children => cases hc
  · intro hf
    exact ⟨_, hf, f.2, rfl, rfl⟩

theorem hasJsonExtension_iff {name : String}
    (h : Text.hasEnding ".json".toList name.toList = true) :
    hasJsonExtension name = true ↔ name ≠ ".json" := by
  rw [hasJsonExtension, h]
  simp

/-! ## Directories -/

/-- The files that a directory gives: the names on the way, the path, and what the file holds. -/
def visibleFiles (root : FileTree) (dir : String) : List (List String × String × Content) :=
  (root.files.filter fun f => ¬ Hidden f.1).map fun f => (f.1, f.1.foldl join dir, f.2)

theorem visibleFiles_eq (sources : root.HoldsSources) (dir : String) :
    (((root.walk []).map fun x => (x.1, x.1.foldl join dir, x.2)).filterMap fun x =>
      match x.2.2 with
      | .file c =>
        if hasJsonExtension ((x.1.getLast?.or (fileName? dir)).getD "") = true then
          some (x.1, x.2.1, c)
        else none
      | .directory _ => none) = visibleFiles root dir := by
  rw [visibleFiles, files, List.filter_filterMap, List.map_filterMap, List.filterMap_map]
  refine List.filterMap_congr fun x hx => ?_
  obtain ⟨names, node⟩ := x
  cases node with
  | directory children => rfl
  | file c =>
    obtain ⟨name, hlast, hending⟩ := sources.ending (names, c) (mem_files_iff.mpr hx)
    dsimp only at hlast
    by_cases hname : name = ".json"
    · subst hname
      have hext : hasJsonExtension ".json" = false := by rfl
      simp [Hidden, content?, hlast, hext]
    · simp [Hidden, content?, hlast, hname, (hasJsonExtension_iff hending).mpr hname]

theorem mem_visibleFiles {dir : String} {x : List String × String × Content}
    (hx : x ∈ visibleFiles root dir) : (x.1, x.2.2) ∈ root.files ∧ x.2.1 = x.1.foldl join dir := by
  obtain ⟨f, hf, rfl⟩ := List.mem_map.mp hx
  exact ⟨(List.mem_filter.mp hf).1, rfl⟩

/-- A directory of documents gives those that are not hidden, in the order of their paths. -/
theorem load_directory {dir : String} (hget : tree.get dir = .ok root)
    (plain : isArchivePath dir = false) (sources : root.HoldsSources)
    (reachable : ∀ x ∈ root.walk [], pathFault? (x.1.foldl join dir) = none) :
    ∃ (l : Library) (ds : List (List String × SourceUnit)), load tree dir = .ok l ∧
      ds.Perm (root.documents.filter fun d => ¬ Hidden d.1) ∧
      ds.Pairwise (fun a b => a.1 ≤ b.1) ∧ l.loaded.map SourceUnit.unlabelled = ds.map (·.2) := by
  have plainly : load tree dir = ofDirectory tree dir := by simp [load, plain]
  rw [plainly]
  unfold ofDirectory
  rw [hget]
  simp only [Except.mapError, ok_bind]
  split
  case h_1 e he =>
    -- every directory can be followed
    obtain ⟨x, hx, hfault⟩ := List.exists_of_findSome?_eq_some he
    obtain ⟨y, hy, rfl⟩ := List.mem_map.mp hx
    simp [reachable y hy] at hfault
  case h_2 =>
    generalize hfiles : List.filterMap _ (List.map _ (root.walk [])) = files
    obtain rfl : files = visibleFiles root dir := hfiles.symm.trans (visibleFiles_eq sources dir)
    have hperm := (visibleFiles root dir).mergeSort_perm fun a b => pathBefore a.1 b.1
    have hsorted : ((visibleFiles root dir).mergeSort fun a b => pathBefore a.1 b.1).Pairwise
        fun a b => a.1 ≤ b.1 := pairwise_mergeSort_key Prod.fst (fun _ _ => pathBefore_iff) _
    generalize (visibleFiles root dir).mergeSort (fun a b => pathBefore a.1 b.1) = sorted
      at hperm hsorted ⊢
    generalize hread : (List.mapM _ sorted : Except SourceError (List SourceUnit)) = read
    obtain ⟨us, rfl, hunits⟩ : ∃ us, read = .ok us ∧
        us.map SourceUnit.unlabelled = sorted.map fun x => source x.2.2 := by
      rw [← hread]
      apply exists_mapM_of_forall
      intro x hx
      obtain ⟨hfile, hpath⟩ := mem_visibleFiles (hperm.mem_iff.mp hx)
      obtain ⟨text, u, htext, hu, hsource⟩ := exists_source sources hfile x.2.1
      have hfault : pathFault? x.2.1 = none := by
        rw [hpath]
        exact reachable _ (mem_files_iff.mp hfile)
      refine ⟨u, ?_, hsource⟩
      dsimp only at htext
      simp only [hfault, htext]
      exact hu
    refine ⟨⟨us⟩, sorted.map fun x => (x.1, source x.2.2), rfl, ?_, ?_, ?_⟩
    · rw [documents_eq_map sources, List.filter_map]
      simpa [visibleFiles, Function.comp_def] using
        hperm.map fun x => (x.1, source x.2.2)
    · exact hsorted.map _ fun _ _ h => h
    · rw [hunits, List.map_map]
      rfl

/-! ## Archives -/

/-- The archive holds the files of the tree under their joined names, and nothing else but
directories. -/
structure Archived (entries : List Entry) (t : FileTree) : Prop where
  names : (entries.map Entry.name).Nodup
  files : (entries.filter fun e => !e.isDirectory).Perm
    (t.files.map fun f => ⟨joined f.1, f.2.text?⟩)

/-- The entries of an archive of documents that are read. -/
def wantedEntries (entries : List Entry) : List Entry :=
  (Entry.distinct entries).filter fun e =>
    !e.isDirectory && Text.hasEnding ".json".toList e.name.toList

theorem wantedEntries_perm {entries : List Entry} (archived : Archived entries root)
    (sources : root.HoldsSources) :
    (wantedEntries entries).Perm (root.files.map fun f => ⟨joined f.1, f.2.text?⟩) := by
  have hall : ∀ e ∈ entries.filter fun e => !e.isDirectory,
      Text.hasEnding ".json".toList e.name.toList = true := by
    intro e he
    obtain ⟨f, hf, rfl⟩ := List.mem_map.mp (archived.files.mem_iff.mp he)
    obtain ⟨name, hlast, hending⟩ := sources.ending f hf
    exact Text.hasEnding_iff.mpr ((Text.hasEnding_iff.mp hending).trans (getLast_suffix_joined hlast))
  rw [wantedEntries, Entry.distinct_of_nodup archived.names, ← List.filter_filter,
    List.filter_comm, List.filter_eq_self.mpr hall]
  exact archived.files

/-- Texts that archived files hold are read as the documents of the files. -/
theorem exists_ofTexts (sources : root.HoldsSources) (start : String)
    {texts : List (String × String)} {fs : List (List String × Content)}
    (hfs : ∀ f ∈ fs, f ∈ root.files)
    (h : texts.map (fun t => (⟨t.1, some t.2⟩ : Entry)) =
      fs.map fun f => ⟨joined f.1, f.2.text?⟩) :
    ∃ l, ofTexts (texts.map fun t => (start ++ t.1, t.2)) = .ok l ∧
      l.loaded.map SourceUnit.unlabelled = fs.map fun f => source f.2 := by
  have hread : ∀ t ∈ texts.map fun t => (start ++ t.1, t.2), ∃ u,
      SourceUnit.ofText t.1 t.2 = .ok u ∧ u.unlabelled = source (.plain (some t.2)) := by
    intro t' ht'
    obtain ⟨t, ht, rfl⟩ := List.mem_map.mp ht'
    have hentry := List.mem_map_of_mem (f := fun t => (⟨t.1, some t.2⟩ : Entry)) ht
    rw [h] at hentry
    obtain ⟨f, hf, heq⟩ := List.mem_map.mp hentry
    have htext : f.2.text? = some t.2 := congrArg Entry.text? heq
    obtain ⟨text, u, htext', hu, hsource⟩ := exists_source sources (hfs f hf) (start ++ t.1)
    obtain rfl : text = t.2 := Option.some.inj (htext'.symm.trans htext)
    exact ⟨u, hu, hsource.trans (by rw [← source_plain, htext'])⟩
  obtain ⟨us, hus, hunits⟩ := exists_mapM_of_forall hread
  refine ⟨⟨us⟩, bind_of_ok hus rfl, ?_⟩
  have hsame := congrArg (List.map fun e => source (.plain e.text?)) h
  simp only [List.map_map] at hsame
  rw [hunits, List.map_map]
  exact hsame

/-- An archive of documents gives all of them, in the order of their joined names. -/
theorem load_archive {zip : String} {entries : List Entry}
    (hget : tree.get zip = .ok (.file (.archive entries))) (named : isArchivePath zip = true)
    (archived : Archived entries root) (sources : root.HoldsSources) :
    ∃ (l : Library) (ds : List (List String × SourceUnit)), load tree zip = .ok l ∧
      ds.Perm root.documents ∧ ds.Pairwise (fun a b => joined a.1 ≤ joined b.1) ∧
      l.loaded.map SourceUnit.unlabelled = ds.map (·.2) := by
  have packed : load tree zip = ofArchive tree zip := by simp [load, named]
  rw [packed]
  unfold ofArchive
  rw [hget]
  simp only [Except.mapError, ok_bind, content?]
  have hwanted := wantedEntries_perm archived sources
  generalize hread : (List.mapM _ (List.filter _ (Entry.distinct entries)) :
    Except SourceError (List (String × String))) = read
  obtain ⟨texts, rfl, hentries⟩ : ∃ texts : List (String × String), read = .ok texts ∧
      (texts.map fun t => (⟨t.1, some t.2⟩ : Entry)) = (wantedEntries entries).map id := by
    rw [← hread]
    apply exists_mapM_of_forall
    intro e he
    obtain ⟨f, hf, rfl⟩ := List.mem_map.mp (hwanted.mem_iff.mp he)
    obtain ⟨text, -, htext, -⟩ := exists_source sources hf ""
    simp [htext]
  have hperm := (texts.mergeSort_perm fun a b => a.1 ≤ b.1).map
    fun t => (⟨t.1, some t.2⟩ : Entry)
  rw [hentries, List.map_id] at hperm
  -- the files of the tree in the order of the entries
  obtain ⟨fs, hfs, hsame⟩ := exists_perm_of_map_perm (hperm.trans hwanted)
  obtain ⟨l, hl, hunits⟩ := exists_ofTexts sources (zip ++ "!")
    (fun f hf => hfs.mem_iff.mp hf) hsame
  refine ⟨l, fs.map fun f => (f.1, source f.2), hl, ?_, ?_, ?_⟩
  · rw [documents_eq_map sources]
    exact hfs.map _
  · have hnames : ((texts.mergeSort fun a b => a.1 ≤ b.1).map fun t =>
        (⟨t.1, some t.2⟩ : Entry)).Pairwise fun a b => a.name ≤ b.name :=
      List.pairwise_map.mpr (pairwise_mergeSort_key Prod.fst (fun _ _ => decide_eq_true_iff) texts)
    rw [hsame, List.pairwise_map] at hnames
    exact List.pairwise_map.mpr hnames
  · rw [hunits, List.map_map]
    rfl

end Library
end Verdict
