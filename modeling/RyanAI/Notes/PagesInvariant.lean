import RyanAI.Lib.Machine
import RyanAI.Notes.Pages

/-!
# The pages of a note stay well formed

`orderPages` makes an outline of its pages or fails (`ordered_of_orderPages`), and leaves an outline as
it is (`orderPages_of_ordered`). Everything that is stored has gone through it, so `WellFormed` needs no
argument about the operations; these only have to be compared with what they are for (`Expected`), up to
the order of the pages.
-/

namespace RyanAI.Notes

open RyanAI.Lib

/-! ## Outlines of pages -/

structure Ordered (pages : List Page) : Prop where
  unique : (pages.map Page.id).Nodup
  listed : Outline.Listed Page.id Page.parent_id none pages
  main_root : ∀ page ∈ pages, page.id = "main" → page.parent_id = none
  main_first : ∀ page ∈ pages, page.id = "main" → pages.head? = some page

@[simp] theorem rootMain_id (page : Page) : (rootMain page).id = page.id := by
  unfold rootMain
  split <;> rfl

variable {page : Page} {pages : List Page} {data : NoteData} {t : Option String}

theorem rootMain_parent_id (h : page.id = "main") : (rootMain page).parent_id = none := by
  rw [rootMain, if_pos h]

theorem rootMain_eq_self (h : page.id = "main" → page.parent_id = none) : rootMain page = page := by
  unfold rootMain
  split
  · rename_i hid
    rw [← h hid]
  · rfl

theorem map_id_rootMain (pages : List Page) : (pages.map rootMain).map Page.id = pages.map Page.id := by
  simp

theorem eq_of_id_eq (h : (pages.map Page.id).Nodup) (hp : p ∈ pages) (hq : q ∈ pages) (heq : p.id = q.id) : p = q :=
  List.inj_on_of_nodup_map h hp hq heq

theorem mem_mainFirst : page ∈ mainFirst roots ↔ page ∈ roots := by
  simp only [mainFirst, List.mem_append, List.mem_filter, decide_eq_true_eq]
  tauto

theorem perm_mainFirst (roots : List Page) : (mainFirst roots).Perm roots := by
  have hfilter : (roots.filter fun page => page.id ≠ "main") =
      roots.filter fun page => !decide (page.id = "main") := by
    simp
  rw [mainFirst, hfilter]
  exact List.filter_append_perm _ roots

theorem mainFirst_of_mem (h : (roots.map Page.id).Nodup) (hpage : page ∈ roots)
    (hid : page.id = "main") : ∃ rest, mainFirst roots = page :: rest := by
  cases hmain : roots.filter fun page => page.id = "main" with
  | nil =>
    have hnot := List.filter_eq_nil_iff.1 hmain page hpage
    simp [hid] at hnot
  | cons first others =>
    have hfirst : first ∈ roots ∧ first.id = "main" := by
      have hmem : first ∈ roots.filter fun page => page.id = "main" := hmain ▸ List.mem_cons_self
      simpa using hmem
    obtain rfl := eq_of_id_eq h hfirst.1 hpage (hfirst.2.trans hid.symm)
    exact ⟨others ++ roots.filter fun page => page.id ≠ "main", by rw [mainFirst, hmain]; rfl⟩

theorem exists_explore (h : (pages.map Page.id).Nodup) :
    ∃ ordered, explorePages pages = some ordered ∧ (ordered.map Page.id).Nodup ∧ (∀ page ∈ ordered, page ∈ pages) ∧
      Outline.Listed Page.id Page.parent_id none ordered ∧
      ∀ page ∈ pages, page.id = "main" → page.parent_id = none → ordered.head? = some page := by
  have hroots : ∀ page ∈ mainFirst (childrenOf pages none), page ∈ pages ∧ page.parent_id = none := by
    intro page hpage
    simpa [childrenOf] using mem_mainFirst.1 hpage
  have hunique : ((childrenOf pages none).map Page.id).Nodup := h.sublist (List.filter_sublist.map _)
  obtain ⟨ordered, hexplore, hnodup, hmem⟩ : ∃ ordered, explorePages pages = some ordered ∧
      (ordered.map Page.id).Nodup ∧ ∀ page ∈ ordered, page ∈ pages := by
    refine Outline.explore_spec h ?_ (fun page hpage => (hroots page hpage).1) (fun page hpage p hp => ?_) ?_
    · rw [List.nil_append, ((perm_mainFirst _).map Page.id).nodup_iff]
      exact hunique
    · rw [(hroots page hpage).2] at hp
      cases hp
    · simp
  obtain ⟨out, heq, hcovers⟩ := Outline.covers_of_explore hexplore
  obtain rfl : ordered = out := heq
  refine ⟨ordered, hexplore, hnodup, hmem, ?_, fun page hpage hid hroot => ?_⟩
  · refine Outline.listed_of_covers (fun k page hpage => ?_) hcovers fun page hpage => (hroots page hpage).2
    simpa using (List.mem_filter.1 hpage).2
  have hroot' : page ∈ childrenOf pages none := by simp [childrenOf, hpage, hroot]
  obtain ⟨rest, hrest⟩ := mainFirst_of_mem hunique hroot' hid
  rw [hrest] at hcovers
  cases hcovers
  rfl

theorem ordered_of_orderPages (h : orderPages pages = .ok ordered) :
    Ordered ordered ∧ ordered.Perm (pages.map rootMain) := by
  unfold orderPages at h
  split at h
  · cases h
  rename_i hunique
  rw [not_not] at hunique
  dsimp only at h
  split at h
  · cases h
  have hnodup : ((pages.map rootMain).map Page.id).Nodup := by rwa [map_id_rootMain]
  obtain ⟨found, hfound, hfnodup, hfmem, hlisted, hfirst⟩ := exists_explore hnodup
  rw [hfound, Option.getD_some] at h
  split at h
  · cases h
  rename_i hlen
  cases h
  have hroot : ∀ page ∈ pages.map rootMain, page.id = "main" → page.parent_id = none := by
    intro page hpage hid
    obtain ⟨p, -, rfl⟩ := List.mem_map.1 hpage
    exact rootMain_parent_id (by simpa using hid)
  refine ⟨⟨hfnodup, hlisted, fun page hpage hid => hroot page (hfmem page hpage) hid, fun page hpage hid => ?_⟩, ?_⟩
  · exact hfirst page (hfmem page hpage) hid (hroot page (hfmem page hpage) hid)
  · exact (hfnodup.of_map.subperm hfmem).perm_of_length_le (by omega)

theorem orderPages_of_ordered (h : Ordered pages) : orderPages pages = .ok pages := by
  have hroot : pages.map rootMain = pages := by
    rw [List.map_congr_left fun page hpage => rootMain_eq_self (h.main_root page hpage), List.map_id']
  have hparents : ¬ (pages.any fun page => page.parent_id.any fun parent => parent ∉ pages.map Page.id) = true := by
    simp only [List.any_eq_true, Option.any_eq_true, decide_eq_true_eq, not_exists, not_and, not_not]
    intro page hpage parent hparent
    rcases h.listed.parent_mem hpage with hnone | ⟨q, hq, hsome⟩
    · rw [hnone] at hparent
      cases hparent
    · obtain rfl := Option.some.inj (hparent.symm.trans hsome)
      exact List.mem_map_of_mem hq
  -- the roots are in the order they have
  have hmain : mainFirst (childrenOf pages none) = childrenOf pages none := by
    cases hpages : pages with
    | nil => rfl
    | cons first rest =>
      have htail : ∀ page ∈ rest, page.id ≠ "main" := by
        intro page hpage hid
        have hhead := h.main_first page (hpages ▸ List.mem_cons_of_mem _ hpage) hid
        rw [hpages, List.head?_cons, Option.some.injEq] at hhead
        have hnodup := h.unique
        rw [hpages, List.map_cons, List.nodup_cons] at hnodup
        exact hnodup.1 (hhead ▸ List.mem_map_of_mem hpage)
      have hrest : ∀ page ∈ childrenOf rest none, page.id ≠ "main" :=
        fun page hpage => htail page (List.mem_of_mem_filter hpage)
      have hsame : mainFirst (childrenOf rest none) = childrenOf rest none := by
        rw [mainFirst, List.filter_eq_nil_iff.2 fun page hp => by simpa using hrest page hp, List.nil_append]
        exact List.filter_eq_self.2 fun page hp => by simpa using hrest page hp
      by_cases hroot : first.parent_id = none
      · have hcons : childrenOf (first :: rest) none = first :: childrenOf rest none :=
          List.filter_cons_of_pos (by simpa using hroot)
        rw [hcons]
        by_cases hid : first.id = "main"
        · rw [mainFirst, List.filter_cons_of_pos (by simpa using hid), List.filter_cons_of_neg (by simpa using hid),
            List.cons_append]
          congr 1
        · rw [mainFirst, List.filter_cons_of_neg (by simpa using hid), List.filter_cons_of_pos (by simpa using hid),
            List.filter_eq_nil_iff.2 fun page hp => by simpa using hrest page hp, List.nil_append]
          congr 1
          exact List.filter_eq_self.2 fun page hp => by simpa using hrest page hp
      · have hcons : childrenOf (first :: rest) none = childrenOf rest none :=
          List.filter_cons_of_neg (by simpa using hroot)
        rw [hcons, hsame]
  have hcovers : Outline.Covers Page.id (fun k => childrenOf pages (some k)) (childrenOf pages none) pages :=
    Outline.covers_of_listed h.listed h.unique (fun p hp => by cases hp) fun _ _ => rfl
  have hexplore : explorePages pages = some pages := by
    rw [explorePages, hmain]
    exact Outline.explore_of_covers hcovers (le_refl _)
  rw [orderPages, if_neg (not_not.2 h.unique)]
  rw [hroot, if_neg hparents, hexplore, Option.getD_some, if_neg (not_not.2 rfl)]

theorem Ordered.map (h : Ordered pages) {f : Page → Page} (hid : ∀ page ∈ pages, (f page).id = page.id)
    (hparent : ∀ page ∈ pages, (f page).parent_id = page.parent_id) : Ordered (pages.map f) where
  unique := by
    have hids : (pages.map f).map Page.id = pages.map Page.id := by
      rw [List.map_map]
      exact List.map_congr_left hid
    rw [hids]
    exact h.unique
  listed := h.listed.map hid hparent
  main_root page hpage hmain := by
    obtain ⟨p, hp, rfl⟩ := List.mem_map.1 hpage
    rw [hparent p hp]
    exact h.main_root p hp (hid p hp ▸ hmain)
  main_first page hpage hmain := by
    obtain ⟨p, hp, rfl⟩ := List.mem_map.1 hpage
    rw [List.head?_map, h.main_first p hp (hid p hp ▸ hmain)]
    rfl

/-! ## What is stored -/

/-- What `normalizePages` returns. -/
structure Stored (data : NoteData) : Prop where
  ordered : Ordered data.pages
  main : ∃ page ∈ data.pages, page.id = "main"
  content : data.content = some (projectContent data.pages)
  search_text : data.search_text = some (projectSearchText data.pages)
  revision : data.pages_revision.isSome = true
  no_versions : data.versions = none
  no_files : data.files = none
  no_page_files : ∀ page ∈ data.pages, page.files = none

theorem Stored.main_root (h : Stored data) : ∃ page ∈ data.pages, page.id = "main" ∧ page.parent_id = none := by
  obtain ⟨page, hpage, hid⟩ := h.main
  exact ⟨page, hpage, hid, h.ordered.main_root page hpage hid⟩

@[simp] theorem inheritTitle_none (page : Page) : inheritTitle none page = page := rfl

@[simp] theorem inheritTitle_id (t : Option String) (page : Page) : (inheritTitle t page).id = page.id := by
  unfold inheritTitle
  split <;> rfl

@[simp] theorem inheritTitle_parent_id (t : Option String) (page : Page) :
    (inheritTitle t page).parent_id = page.parent_id := by
  unfold inheritTitle
  split <;> rfl

theorem inheritTitle_of_inherits (h : (t.isSome && page.id = "main" && page.inherit_note_title) = true) :
    inheritTitle t page = { page with title := titleOrUntitled t } := by
  rw [inheritTitle, if_pos h]

theorem inheritTitle_of_not_inherits (h : ¬ (t.isSome && page.id = "main" && page.inherit_note_title) = true) :
    inheritTitle t page = page := by
  rw [inheritTitle, if_neg h]

theorem inheritTitle_idem (t : Option String) (page : Page) :
    inheritTitle t (inheritTitle t page) = inheritTitle t page := by
  by_cases h : (t.isSome && page.id = "main" && page.inherit_note_title) = true
  · rw [inheritTitle_of_inherits h]
    exact inheritTitle_of_inherits h
  · rw [inheritTitle_of_not_inherits h, inheritTitle_of_not_inherits h]

theorem inheritTitle_rootMain (t : Option String) (page : Page) :
    inheritTitle t (rootMain page) = rootMain (inheritTitle t page) := by
  have hroot : rootMain page = { page with parent_id := if page.id = "main" then none else page.parent_id } := by
    unfold rootMain
    split <;> rfl
  by_cases h : (t.isSome && page.id = "main" && page.inherit_note_title) = true
  · rw [inheritTitle_of_inherits h, hroot]
    refine Eq.trans (inheritTitle_of_inherits ?_) ?_
    · exact h
    · unfold rootMain
      split <;> rfl
  · rw [inheritTitle_of_not_inherits h, hroot]
    exact inheritTitle_of_not_inherits h

section

variable (legacy : LegacyFiles)

include legacy

theorem takeFiles_shape (files : List Json) (page : Page) : ∃ content versions generation, takeFiles legacy files page =
      { page with content := content, versions := versions, generation := generation, files := none } := by
  unfold takeFiles
  dsimp only
  generalize page.files.getD _ = own
  split
  · exact ⟨page.content, page.versions, page.generation, rfl⟩
  · split
    · exact ⟨page.content, page.versions, page.generation, rfl⟩
    · rename_i content versions _
      exact ⟨content, versions, page.generation + 1, rfl⟩

@[simp] theorem takeFiles_id (files : List Json) (page : Page) : (takeFiles legacy files page).id = page.id := by
  obtain ⟨content, versions, generation, h⟩ := takeFiles_shape legacy files page
  rw [h]

@[simp] theorem takeFiles_parent_id (files : List Json) (page : Page) :
    (takeFiles legacy files page).parent_id = page.parent_id := by
  obtain ⟨content, versions, generation, h⟩ := takeFiles_shape legacy files page
  rw [h]

@[simp] theorem takeFiles_files (files : List Json) (page : Page) : (takeFiles legacy files page).files = none := by
  obtain ⟨content, versions, generation, h⟩ := takeFiles_shape legacy files page
  rw [h]

theorem takeFiles_nil (h : page.files = none) : takeFiles legacy [] page = page := by
  have hown : (page.files.getD (if page.id = "main" then []
      else ([] : List Json).filter fun file => isImage file && legacy.referenced page.content page.versions file)) =
        [] := by
    rw [h]
    simp
  unfold takeFiles
  rw [hown]
  cases page
  subst h
  rfl

theorem inheritTitle_takeFiles (files : List Json) (h : inheritTitle t page = page) :
    inheritTitle t (takeFiles legacy files page) = takeFiles legacy files page := by
  obtain ⟨content, versions, generation, hshape⟩ := takeFiles_shape legacy files page
  rw [hshape]
  by_cases hinherit : (t.isSome && page.id = "main" && page.inherit_note_title) = true
  · rw [inheritTitle_of_inherits hinherit] at h
    have htitle : titleOrUntitled t = page.title := congrArg Page.title h
    refine Eq.trans (inheritTitle_of_inherits ?_) ?_
    · exact hinherit
    · rw [htitle]
  · exact inheritTitle_of_not_inherits hinherit

end

theorem exists_main_withMain (note_title : Option String) (data : NoteData) :
    ∃ page ∈ withMain note_title data, page.id = "main" := by
  rw [withMain]
  generalize (if data.pages.isEmpty = true then _ else data.pages) = pages
  by_cases hany : (pages.any fun page => page.id = "main") = true
  · rw [if_pos hany]
    simpa using hany
  · rw [if_neg hany]
    exact ⟨newPage "main" none (titleOrUntitled note_title) emptyContent (.arr []), List.mem_cons_self, rfl⟩

theorem withMain_eq_self (h : ∃ page ∈ data.pages, page.id = "main") : withMain note_title data = data.pages := by
  obtain ⟨page, hpage, hid⟩ := h
  have hne : data.pages.isEmpty = false := by
    rw [List.isEmpty_eq_false_iff]
    exact List.ne_nil_of_mem hpage
  have hany : data.pages.any (fun page => page.id = "main") = true := by
    simpa using ⟨page, hpage, hid⟩
  simp only [withMain, hne, Bool.false_eq_true, ↓reduceIte, hany]

theorem stored_of_normalizePages (h : normalizePages legacy data t = .ok d) :
    Stored d ∧ ∀ page ∈ d.pages, inheritTitle t page = page := by
  unfold normalizePages at h
  split at h
  · cases h
  rename_i found hfound
  obtain ⟨hordered, hperm⟩ := ordered_of_orderPages hfound
  cases h
  have hinherit : ∀ page ∈ found, inheritTitle t page = page := by
    intro page hpage
    obtain ⟨p, hp, rfl⟩ := List.mem_map.1 (hperm.mem_iff.1 hpage)
    obtain ⟨q, -, rfl⟩ := List.mem_map.1 hp
    rw [inheritTitle_rootMain, inheritTitle_idem]
  refine ⟨⟨hordered.map (fun p _ => takeFiles_id legacy _ p) fun p _ => takeFiles_parent_id legacy _ p, ?_, rfl, rfl,
    rfl, rfl, rfl, ?_⟩, ?_⟩
  · obtain ⟨page, hpage, hid⟩ := exists_main_withMain t data
    have hmem : rootMain (inheritTitle t page) ∈ found :=
      hperm.mem_iff.2 (List.mem_map_of_mem (List.mem_map_of_mem hpage))
    exact ⟨_, List.mem_map_of_mem hmem, by simpa using hid⟩
  · intro page hpage
    obtain ⟨p, -, rfl⟩ := List.mem_map.1 hpage
    exact takeFiles_files legacy _ p
  · intro page hpage
    obtain ⟨p, hp, rfl⟩ := List.mem_map.1 hpage
    exact inheritTitle_takeFiles legacy _ (hinherit p hp)

theorem normalizePages_of_stored (legacy : LegacyFiles) (h : Stored data)
    (ht : ∀ page ∈ data.pages, inheritTitle t page = page) : normalizePages legacy data t = .ok data := by
  have htitles : data.pages.map (inheritTitle t) = data.pages := by
    rw [List.map_congr_left ht, List.map_id']
  have hfiles : data.pages.map (takeFiles legacy []) = data.pages := by
    rw [List.map_congr_left fun page hpage => takeFiles_nil legacy (h.no_page_files page hpage), List.map_id']
  rw [normalizePages, withMain_eq_self h.main, htitles, orderPages_of_ordered h.ordered, h.no_files]
  dsimp only [Option.getD_none]
  rw [hfiles, ← h.content, ← h.search_text, ← h.no_versions, ← h.no_files]
  obtain ⟨n, hn⟩ := Option.isSome_iff_exists.1 h.revision
  rw [hn, Option.getD_some, ← hn]

theorem normalizePages_stored (legacy : LegacyFiles) (h : Stored data) : normalizePages legacy data none = .ok data :=
  normalizePages_of_stored legacy h fun _ _ => rfl

theorem normalizePages_changed
    (h : normalizePages legacy { data with pages := pages, pages_revision := revision } none = .ok d)
    (hdata : Stored data) (hmain : ∃ page ∈ pages, page.id = "main")
    (hroot : ∀ page ∈ pages, page.id = "main" → page.parent_id = none) (hfiles : ∀ page ∈ pages, page.files = none) :
    d.pages.Perm pages ∧ orderPages pages = .ok d.pages ∧ d.pages_revision = some (revision.getD 0) ∧
      d.extra = data.extra := by
  have hinherit : pages.map (inheritTitle none) = pages := by
    rw [List.map_congr_left fun page _ => inheritTitle_none page, List.map_id']
  have hroots : pages.map rootMain = pages := by
    rw [List.map_congr_left fun page hpage => rootMain_eq_self (hroot page hpage), List.map_id']
  rw [normalizePages, withMain_eq_self hmain] at h
  rw [hinherit, hdata.no_files] at h
  split at h
  · cases h
  rename_i found hfound
  obtain ⟨-, hperm⟩ := ordered_of_orderPages hfound
  rw [hroots] at hperm
  have htake : found.map (takeFiles legacy []) = found := by
    rw [List.map_congr_left fun page hpage => takeFiles_nil legacy (hfiles page (hperm.mem_iff.1 hpage)),
      List.map_id']
  cases h
  dsimp only [Option.getD_none]
  rw [htake]
  exact ⟨hperm, hfound, rfl, rfl⟩

end RyanAI.Notes
