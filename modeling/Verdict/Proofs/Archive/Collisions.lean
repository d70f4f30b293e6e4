import Verdict.Proofs.Archive.Consistency

/-!
# Entries for the same artifact

A name may spell the version of its artifact with a plus sign or with leading zeros, so several names
can stand for one artifact. An archive with such names still loads, and for every artifact only the
last entry counts. Without them every entry is kept, and the order of the entries does not matter.
-/

namespace Verdict

open Results

namespace Loading

variable {es es' : List Entry} {m m' : Manifest}

/-- It does not matter in which order the entries of an archive are. -/
theorem Consistent.of_perm (h : Consistent es m) (hp : es'.Perm es) : Consistent es' m := by
  have hmem : ∀ e, e ∈ es' ↔ e ∈ es := fun e => hp.mem_iff
  refine ⟨?_, ?_, ?_, ?_⟩
  · simpa only [hmem] using h.manifest
  · simpa only [hmem] using h.listed
  · simpa only [hmem] using h.holds
  · simpa only [hmem] using h.root

/-- An archive has one manifest. -/
theorem Consistent.manifest_unique (h : Consistent es m) (h' : Consistent es m')
    (names : (es.map Entry.name).Nodup) : m = m' := by
  obtain ⟨e, he, hm⟩ := h.manifest
  obtain ⟨e', he', hm'⟩ := h'.manifest
  obtain rfl := List.inj_on_of_nodup_map names he he' (hm.1.trans hm'.1.symm)
  exact hm.unique hm'

end Loading

namespace LoadedArchive

variable {entries : List Entry} {l : LoadedArchive}

/-- An artifact is what the last entry for it holds. -/
theorem artifact?_eq_some_iff (h : ofEntries entries = .ok l) {r : Reference} {a : Artifact} :
    l.artifact? r = some a ↔ ∃ e, ((Entry.files entries).filter fun e =>
      Reference.ofEntryPath? e.name = some r).getLast? = some e ∧ e.Holds a := by
  obtain ⟨m, as, -, has, rfl⟩ := ofEntries_eq_ok_iff.mp h
  have hfilter : List.Forall₂ Entry.Holds
      ((Entry.files entries).filter fun e => Reference.ofEntryPath? e.name = some r)
      (as.filter fun a => a.reference = r) := by
    apply List.rel_filter _ has
    intro e a ha
    simp [ha.1]
  rw [artifact?, Registry.find?_ofArtifacts]
  constructor
  · exact exists_getLast?_of_forall₂ hfilter
  · rintro ⟨e, he, ha⟩
    obtain ⟨b, hb, hholds⟩ := exists_getLast?_of_forall₂ hfilter.flip he
    rw [hb, ha.unique hholds]

theorem size_eq (h : ofEntries entries = .ok l) : l.size =
    ((Entry.files entries).map fun e => Reference.ofEntryPath? e.name).dedup.length := by
  obtain ⟨m, as, -, has, rfl⟩ := ofEntries_eq_ok_iff.mp h
  have hsome : (as.map fun a => some a.reference) = (as.map Artifact.reference).map some := by
    rw [List.map_map]
    rfl
  rw [Loading.map_ofEntryPath?_name has, hsome, List.dedup_map_of_injective (Option.some_injective _),
    List.length_map]
  exact Registry.size_ofArtifacts as

/-- If no two entries are for the same artifact, an artifact is what some entry holds. -/
theorem artifact?_eq_some_iff_of_nodup (h : ofEntries entries = .ok l)
    (hplaces : ((Entry.files entries).map fun e => Reference.ofEntryPath? e.name).Nodup)
    {r : Reference} {a : Artifact} :
    l.artifact? r = some a ↔ a.reference = r ∧ ∃ e ∈ Entry.files entries, e.Holds a := by
  rw [artifact?_eq_some_iff h]
  constructor
  · rintro ⟨e, hlast, ha⟩
    have he := List.mem_of_getLast? hlast
    rw [List.mem_filter, decide_eq_true_eq, ha.1] at he
    exact ⟨Option.some.inj he.2, e, he.1, ha⟩
  · rintro ⟨rfl, e, he, ha⟩
    obtain ⟨last, hlast, hl, hplace⟩ := exists_getLast?_filter
      (p := fun e => Reference.ofEntryPath? e.name = some a.reference) he ha.1
    obtain rfl := List.inj_on_of_nodup_map hplaces hl he (hplace.trans ha.1.symm)
    exact ⟨last, hlast, ha⟩

/-- A loaded archive has as many artifacts as there are artifacts that its entries are for, and each
is what the last entry for it holds. So nothing is lost exactly if no two entries are for the same
artifact. -/
theorem keeps_last (h : ofEntries entries = .ok l) :
    l.size = ((Entry.files entries).map fun e => Reference.ofEntryPath? e.name).dedup.length ∧
    (∀ r a, l.artifact? r = some a ↔ ∃ e, ((Entry.files entries).filter fun e =>
      Reference.ofEntryPath? e.name = some r).getLast? = some e ∧ e.Holds a) ∧
    ((l.size = (Entry.files entries).length ∧
        ∀ e ∈ Entry.files entries, ∀ a, e.Holds a → l.artifact? a.reference = some a) ↔
      ((Entry.files entries).map fun e => Reference.ofEntryPath? e.name).Nodup) := by
  have hsize := size_eq h
  refine ⟨hsize, fun r a => artifact?_eq_some_iff h, ?_⟩
  constructor
  · rintro ⟨hlength, -⟩
    rw [← List.dedup_eq_self]
    apply (List.dedup_sublist _).eq_of_length
    rw [← hsize, hlength, List.length_map]
  · intro hplaces
    refine ⟨?_, fun e he a ha => ?_⟩
    · rw [hsize, hplaces.dedup, List.length_map]
    · exact (artifact?_eq_some_iff_of_nodup h hplaces).mpr ⟨rfl, e, he, ha⟩

theorem keeps_last_visitFiles :
    ∃ l, ofEntries (Loading.listing visitHeader visitFiles) = .ok l ∧ l.size = 2 ∧
      l.artifact? ⟨.task, "t1", 1⟩ = some visitTask := by
  obtain ⟨l, hl⟩ := exists_ofEntries_listing placed_visitFiles
  obtain ⟨-, -, hkept⟩ := keeps_last hl
  rw [placed_visitFiles.files_listing] at hkept
  obtain ⟨hsize, hartifacts⟩ := hkept.mpr (by decide)
  refine ⟨l, hl, hsize, ?_⟩
  apply hartifacts _ List.mem_cons_self visitTask
  exact ⟨by decide, _, rfl, (placed_visitFiles.settled _ List.mem_cons_self).ofText_pretty⟩

/-- Another challenge with the reference of the visit, which has no task. -/
def emptyVisit : Artifact := ⟨"c1", 1, ⟨"1.0", 5, ""⟩, [], .challenge ⟨[]⟩⟩

/-- The names of both challenges stand for the same reference. -/
def collidingFiles : List (String × Artifact) :=
  [("Challenge/1/c1.json", visit), ("Challenge/+1/c1.json", emptyVisit)]

theorem placed_collidingFiles : Loading.Placed visitHeader collidingFiles where
  names := by decide
  places := by
    rw [collidingFiles]
    simp only [List.forall_mem_cons]
    exact ⟨by decide, by decide, by simp⟩
  settled := by
    rw [collidingFiles]
    simp only [List.forall_mem_cons]
    exact ⟨Artifact.Portable.settled trivial (by decide),
      Artifact.Portable.settled trivial (by decide), by simp⟩
  root := ⟨_, List.mem_cons_self, rfl⟩

/-- The archive of both challenges loads, and the first of them is lost. -/
theorem not_forall_kept :
    (¬ ∀ entries l, ofEntries entries = .ok l → l.size = (Entry.files entries).length) ∧
    ¬ ∀ entries l, ofEntries entries = .ok l → ∀ e ∈ Entry.files entries, ∀ a,
      e.Holds a → l.artifact? a.reference = some a := by
  have placed := placed_collidingFiles
  obtain ⟨l, hl⟩ := exists_ofEntries_listing placed
  constructor
  · intro h
    have hsize := h _ l hl
    rw [size_eq hl, placed.files_listing] at hsize
    revert hsize
    decide
  · intro h
    have hkept := h _ l hl
    rw [placed.files_listing, List.forall_mem_map] at hkept
    have hheld : ∀ x ∈ collidingFiles, l.artifact? x.2.reference = some x.2 := by
      intro x hx
      exact hkept x hx x.2 ⟨placed.places x hx, _, rfl, (placed.settled x hx).ofText_pretty⟩
    have hvisit := hheld _ List.mem_cons_self
    have hempty := hheld _ (List.mem_cons_of_mem _ List.mem_cons_self)
    have hsame : visit = emptyVisit := Option.some.inj (hvisit.symm.trans hempty)
    cases congrArg Artifact.dependencies hsame

/-! ## The order of entries -/

/-- Names as they are emitted stand for different artifacts. -/
theorem nodup_places (h : ofEntries entries = .ok l)
    (spelled : ∀ e ∈ Entry.files entries, ∀ r, Reference.ofEntryPath? e.name = some r →
      e.name = r.entryPath) :
    ((Entry.files entries).map fun e => Reference.ofEntryPath? e.name).Nodup := by
  obtain ⟨m, as, -, has, -⟩ := ofEntries_eq_ok_iff.mp h
  have hnames := Entry.nodup_distinct entries
  have hfiles : (Entry.files entries).Nodup := hnames.of_map.filter _
  apply hfiles.map_on
  intro e he e' he' hplace
  obtain ⟨a, -, ha⟩ := exists_of_forall₂ has.flip he
  have hname : e.name = e'.name := by
    rw [spelled e he _ ha.1, spelled e' he' _ (hplace.symm.trans ha.1)]
  exact List.inj_on_of_nodup_map hnames (Entry.mem_files_iff.mp he).1
    (Entry.mem_files_iff.mp he').1 hname

/-- An archive has one entry for a name, a later one in the place of an earlier. If the names of its
artifacts are spelled as they are emitted, its entries load in any other order exactly if they load in
this one, with the same header and the same artifact under every reference. -/
theorem ofEntries_perm {es es' : List Entry}
    (spelled : ∀ e ∈ Entry.files es, ∀ r, Reference.ofEntryPath? e.name = some r →
      e.name = r.entryPath)
    (perm : (Entry.distinct es').Perm (Entry.distinct es)) :
    ((∃ l, ofEntries es = .ok l) ↔ ∃ l', ofEntries es' = .ok l') ∧
    ∀ l l', ofEntries es = .ok l → ofEntries es' = .ok l' →
      l'.header = l.header ∧ ∀ r, l'.artifact? r = l.artifact? r := by
  have hfiles : (Entry.files es').Perm (Entry.files es) := perm.filter _
  refine ⟨?_, fun l l' hl hl' => ⟨?_, fun r => ?_⟩⟩
  · rw [exists_ofEntries_iff, exists_ofEntries_iff]
    exact exists_congr fun m => ⟨fun h => h.of_perm perm, fun h => h.of_perm perm.symm⟩
  · obtain ⟨m, as, h, -, rfl⟩ := ofEntries_eq_ok_iff.mp hl
    obtain ⟨m', as', h', -, rfl⟩ := ofEntries_eq_ok_iff.mp hl'
    rw [(h'.of_perm perm.symm).manifest_unique h (Entry.nodup_distinct es)]
  · have hplaces := nodup_places hl spelled
    have hplaces' : ((Entry.files es').map fun e => Reference.ofEntryPath? e.name).Nodup :=
      (hfiles.map _).nodup_iff.mpr hplaces
    apply Option.ext
    intro a
    rw [artifact?_eq_some_iff_of_nodup hl hplaces, artifact?_eq_some_iff_of_nodup hl' hplaces']
    simp only [hfiles.mem_iff]

theorem ofEntries_perm_visitFiles :
    ∃ l l', ofEntries (Loading.listing visitHeader visitFiles) = .ok l ∧
      ofEntries (Loading.listing visitHeader visitFiles).reverse = .ok l' ∧
      l'.header = l.header ∧ ∀ r, l'.artifact? r = l.artifact? r := by
  have placed := placed_visitFiles
  have emitted : ∀ x ∈ visitFiles, x.1 = x.2.reference.entryPath := by
    rw [visitFiles]
    simp only [List.forall_mem_cons]
    exact ⟨by decide, by decide, by simp⟩
  have spelled : ∀ e ∈ Entry.files (Loading.listing visitHeader visitFiles), ∀ r,
      Reference.ofEntryPath? e.name = some r → e.name = r.entryPath := by
    rw [placed.files_listing, List.forall_mem_map]
    intro x hx r hr
    rw [← Option.some.inj ((placed.places x hx).symm.trans hr)]
    exact emitted x hx
  have perm := Entry.distinct_perm placed.nodup_listing (List.reverse_perm _)
  obtain ⟨hloads, hloaded⟩ := ofEntries_perm spelled perm
  obtain ⟨l, hl⟩ := exists_ofEntries_listing placed
  obtain ⟨l', hl'⟩ := hloads.mp ⟨l, hl⟩
  exact ⟨l, l', hl, hl', hloaded l l' hl hl'⟩

end LoadedArchive
end Verdict
