import Mathlib
import RyanAI.Notes.PagesInvariant

/-!
# What the operations on the pages of a note do

`Effect op before after` says what an operation is for, up to the order of the pages. Every list that
`operate` computes has it (`effect_of_operate`), and putting the list in order keeps it (`Effect.perm`).
With `Stored`, which any successful `normalizePages` establishes, this gives what every sequence of
operations keeps (`pages_stay_wellFormed`).
-/

namespace RyanAI.Notes

open RyanAI.Lib

/-- The subtree of `page`. -/
def IsBranch (pages : List Page) (page : Page) (branch : List Page) : Prop :=
  branch.Sublist pages ∧ ∀ p ∈ pages, p ∈ branch ↔ Outline.Within Page.id Page.parent_id pages page.id p.id

/-- The copy of a page of the branch of `page`. -/
def copyInBranch (rename : String → String) (page p : Page) : Page :=
  { p with
    id := rename p.id
    parent_id := if p.id = page.id then page.parent_id else p.parent_id.map rename
    title := if p.id = page.id then copyTitle page.title else p.title
    versions := .arr []
    revision := 0
    generation := 0 }

def EffectOn (op : PageOperation) (page : Page) (before after : List Page) : Prop :=
  match op.action with
  | .rename =>
    after.Perm (before.map fun p =>
      if p.id = page.id then
        { p with
          title := strippedTitle op
          inherit_note_title := if p.id = "main" then false else p.inherit_note_title }
      else p)
  | .move => after.Perm (before.map fun p => if p.id = page.id then { p with parent_id := op.parent_id } else p)
  | .delete =>
    after.Perm ((before.filter fun p => p.id ≠ page.id).map fun p =>
      if p.parent_id = some page.id then { p with parent_id := page.parent_id } else p)
  | .duplicate =>
    ∃ (branch : List Page) (rename : String → String), IsBranch before page branch ∧
      rename page.id = op.new_id.getD "" ∧ ((branch.map Page.id).map rename).Nodup ∧
      (∀ p ∈ branch, rename p.id ∉ before.map Page.id) ∧
      after.Perm (before ++ branch.map (copyInBranch rename page))
  | .create | .reorder => False

def Effect (op : PageOperation) (before after : List Page) : Prop :=
  match op.action with
  | .create =>
    after.Perm (before ++ [newPage (op.new_id.getD "") op.parent_id (strippedTitle op) emptyContent (.arr [])])
  | .reorder => after.Perm before
  | .rename | .move | .delete | .duplicate => ∃ page ∈ before, some page.id = op.page_id ∧ EffectOn op page before after

variable {pages after before : List Page} {op : PageOperation} {page : Page} {data : NoteData} {new_id : String}
    {changes : PageChanges} {generation : Option ℤ} {page_id : Option String}

theorem EffectOn.perm (h : EffectOn op page before pages) (hperm : after.Perm pages) :
    EffectOn op page before after := by
  unfold EffectOn at *
  cases haction : op.action <;> rw [haction] at h <;> dsimp only at h ⊢
  case duplicate =>
    obtain ⟨branch, rename, hbranch, hnew, hnodup, hfresh, hpages⟩ := h
    exact ⟨branch, rename, hbranch, hnew, hnodup, hfresh, hperm.trans hpages⟩
  all_goals exact hperm.trans h

theorem Effect.perm (h : Effect op before pages) (hperm : after.Perm pages) : Effect op before after := by
  unfold Effect at *
  cases haction : op.action <;> rw [haction] at h <;> dsimp only at h ⊢
  case create | reorder => exact hperm.trans h
  all_goals
    obtain ⟨page, hpage, hid, heffect⟩ := h
    exact ⟨page, hpage, hid, heffect.perm hperm⟩

theorem Effect.keeps (h : Effect op before after) (hbefore : (before.map Page.id).Nodup)
    (hafter : (after.map Page.id).Nodup) (hq : q ∈ before) (hp : p ∈ after) (hid : q.id = p.id) :
    q.revision = p.revision ∧ q.generation = p.generation := by
  -- the list has the old pages and some new ones
  have hadded : ∀ added, after.Perm (before ++ added) → q.revision = p.revision ∧ q.generation = p.generation := by
    intro added hperm
    rw [(hperm.map Page.id).nodup_iff] at hafter
    rw [eq_of_id_eq hafter (List.mem_append_left _ hq) (hperm.mem_iff.1 hp) hid]
    exact ⟨rfl, rfl⟩
  -- the pages of the list are old pages with changes
  have hchanged : ∀ (f : Page → Page) (kept : List Page), kept ⊆ before → after.Perm (kept.map f) →
      (∀ page, (f page).id = page.id ∧ (f page).revision = page.revision ∧ (f page).generation = page.generation) →
      q.revision = p.revision ∧ q.generation = p.generation := by
    intro f kept hkept hperm hf
    obtain ⟨x, hx, rfl⟩ := List.mem_map.1 (hperm.mem_iff.1 hp)
    rw [eq_of_id_eq hbefore hq (hkept hx) (hid.trans (hf x).1)]
    exact ⟨(hf x).2.1.symm, (hf x).2.2.symm⟩
  unfold Effect at h
  cases haction : op.action <;> rw [haction] at h <;> dsimp only at h
  case create => exact hadded _ h
  case reorder => exact hadded [] (by simpa using h)
  all_goals
    obtain ⟨page, -, -, h⟩ := h
    unfold EffectOn at h
    rw [haction] at h
    dsimp only at h
  case rename => exact hchanged _ before (fun _ hx => hx) h fun x => by split <;> exact ⟨rfl, rfl, rfl⟩
  case move => exact hchanged _ before (fun _ hx => hx) h fun x => by split <;> exact ⟨rfl, rfl, rfl⟩
  case delete =>
    exact hchanged _ _ (fun _ hx => List.mem_of_mem_filter hx) h fun x => by split <;> exact ⟨rfl, rfl, rfl⟩
  case duplicate =>
    obtain ⟨branch, rename, -, -, -, -, hperm⟩ := h
    exact hadded _ hperm

/-! ## The lists that are computed -/

/-- What `normalizePages_changed` asks of a list. -/
structure Fit (pages : List Page) : Prop where
  main : ∃ page ∈ pages, page.id = "main"
  main_root : ∀ page ∈ pages, page.id = "main" → page.parent_id = none
  no_files : ∀ page ∈ pages, page.files = none

theorem Stored.fit (h : Stored data) : Fit data.pages := ⟨h.main, h.ordered.main_root, h.no_page_files⟩

theorem Fit.perm (h : Fit pages) (hperm : after.Perm pages) : Fit after where
  main := by
    obtain ⟨page, hpage, hid⟩ := h.main
    exact ⟨page, hperm.mem_iff.2 hpage, hid⟩
  main_root page hpage := h.main_root page (hperm.mem_iff.1 hpage)
  no_files page hpage := h.no_files page (hperm.mem_iff.1 hpage)

theorem Fit.append {pages added : List Page} (h : Fit pages) (hid : ∀ page ∈ added, page.id ≠ "main")
    (hfiles : ∀ page ∈ added, page.files = none) : Fit (pages ++ added) where
  main := by
    obtain ⟨page, hpage, hmain⟩ := h.main
    exact ⟨page, List.mem_append_left _ hpage, hmain⟩
  main_root page hpage hmain := by
    rcases List.mem_append.1 hpage with hpage | hpage
    · exact h.main_root page hpage hmain
    · exact absurd hmain (hid page hpage)
  no_files page hpage := by
    rcases List.mem_append.1 hpage with hpage | hpage
    · exact h.no_files page hpage
    · exact hfiles page hpage

theorem Fit.map (h : Fit pages) {f : Page → Page} (hid : ∀ page, (f page).id = page.id)
    (hmain : ∀ page ∈ pages, page.id = "main" → (f page).parent_id = none)
    (hfiles : ∀ page, (f page).files = page.files) : Fit (pages.map f) where
  main := by
    obtain ⟨page, hpage, hid'⟩ := h.main
    exact ⟨f page, List.mem_map_of_mem hpage, (hid page).trans hid'⟩
  main_root page hpage hid' := by
    obtain ⟨p, hp, rfl⟩ := List.mem_map.1 hpage
    exact hmain p hp ((hid p).symm.trans hid')
  no_files page hpage := by
    obtain ⟨p, hp, rfl⟩ := List.mem_map.1 hpage
    exact (hfiles p).trans (h.no_files p hp)

theorem Fit.filter (h : Fit pages) {id : String} (hid : id ≠ "main") : Fit (pages.filter fun page => page.id ≠ id) where
  main := by
    obtain ⟨page, hpage, hmain⟩ := h.main
    exact ⟨page, List.mem_filter.2 ⟨hpage, by simpa [hmain] using fun he => hid he.symm⟩, hmain⟩
  main_root page hpage := h.main_root page (List.mem_of_mem_filter hpage)
  no_files page hpage := h.no_files page (List.mem_of_mem_filter hpage)

theorem mem_subtreeIds (h : Ordered pages) (root k : String) :
    k ∈ subtreeIds pages root ↔ Outline.Within Page.id Page.parent_id pages root k :=
  Outline.mem_subtreeIds_iff h.listed h.unique root k

section Operations

variable {uuid5 : String → String → String} {op : PageOperation} {pages out : List Page} {page : Page}

theorem createPage_spec (h : createPage op new_id pages = .ok out) :
    out = pages ++ [newPage new_id op.parent_id (strippedTitle op) emptyContent (.arr [])] := by
  unfold createPage at h
  split at h
  · cases h
  · exact (Except.ok.inj h).symm

theorem reorderPages_spec (hunique : (pages.map Page.id).Nodup) (h : reorderPages op pages = .ok out) :
    out.Perm pages := by
  unfold reorderPages at h
  dsimp only at h
  split at h
  · cases h
  rename_i hids
  push Not at hids
  obtain ⟨hlen, hmem, hall⟩ := hids
  split at h
  · cases h
  cases h
  have horder : (op.order.getD []).Perm (pages.map Page.id) := by
    have hsub : (pages.map Page.id).Subperm (op.order.getD []) := hunique.subperm hall
    exact (hsub.perm_of_length_le (by simp [hlen])).symm
  have hfind : (pages.map Page.id).filterMap (fun id => pages.find? fun page => page.id = id) = pages := by
    rw [List.filterMap_map]
    have hself : ∀ p ∈ pages, ((fun id => pages.find? fun page => page.id = id) ∘ Page.id) p = some p := by
      intro p hp
      cases hf : pages.find? fun page => page.id = p.id with
      | none =>
        have hnone := List.find?_eq_none.1 hf p hp
        simp at hnone
      | some q =>
        have hq : q.id = p.id := by simpa using List.find?_some hf
        have hpq := eq_of_id_eq hunique (List.mem_of_find?_eq_some hf) hp hq
        rw [Function.comp_apply, hf, hpq]
    rw [List.filterMap_congr hself, List.filterMap_some]
  have hperm := horder.filterMap fun id => pages.find? fun page => page.id = id
  rwa [hfind] at hperm

theorem renamePage_spec (h : renamePage op page pages = .ok out) : out = pages.map fun p =>
      if p.id = page.id then
        { p with
          title := strippedTitle op
          inherit_note_title := if p.id = "main" then false else p.inherit_note_title }
      else p := by
  unfold renamePage at h
  split at h
  · cases h
  · exact (Except.ok.inj h).symm

theorem movePage_spec (hordered : Ordered pages) (h : movePage op page pages = .ok out) :
    out.Perm (pages.map fun p => if p.id = page.id then { p with parent_id := op.parent_id } else p) := by
  have hroot : page.id ∈ subtreeIds pages page.id := (mem_subtreeIds hordered page.id page.id).2 .root
  unfold movePage at h
  split at h
  · cases h
  dsimp only at h
  split at h
  · cases h
  split at h
  · cases h
  -- the pages that stay are not changed
  have hremaining : (pages.filter fun p => p.id ∉ subtreeIds pages page.id) =
      (pages.filter fun p => p.id ∉ subtreeIds pages page.id).map fun p =>
        if p.id = page.id then { p with parent_id := op.parent_id } else p := by
    refine (List.map_id' _).symm.trans (List.map_congr_left fun p hp => ?_)
    have hnot : p.id ∉ subtreeIds pages page.id := by simpa using (List.mem_filter.1 hp).2
    have hne : p.id ≠ page.id := fun he => hnot (he ▸ hroot)
    rw [if_neg hne]
  have hall : ((pages.filter fun p => p.id ∉ subtreeIds pages page.id) ++
      pages.filter fun p => p.id ∈ subtreeIds pages page.id).Perm pages := by
    have hfilter : (pages.filter fun p => p.id ∉ subtreeIds pages page.id) =
        pages.filter fun p => !decide (p.id ∈ subtreeIds pages page.id) := by
      simp
    rw [hfilter]
    exact List.perm_append_comm.trans (List.filter_append_perm _ pages)
  have hmoved := hall.map fun p : Page => if p.id = page.id then { p with parent_id := op.parent_id } else p
  rw [List.map_append, ← hremaining] at hmoved
  split at h
  · rw [← Except.ok.inj h]
    exact hmoved
  split at h
  · rename_i before_id _ _
    rw [← Except.ok.inj h]
    refine List.Perm.trans ?_ hmoved
    rw [List.append_assoc]
    refine (List.Perm.append_left _ List.perm_append_comm).trans ?_
    rw [← List.append_assoc, List.takeWhile_append_dropWhile]
  · cases h

theorem deletePage_spec (h : deletePage page pages = .ok out) :
    out = (pages.filter fun p => p.id ≠ page.id).map fun p =>
      if p.parent_id = some page.id then { p with parent_id := page.parent_id } else p := by
  unfold deletePage at h
  split at h
  · cases h
  rw [← Except.ok.inj h, List.filter_map]
  congr 2
  funext p
  simp only [Function.comp_apply]
  split <;> rfl

theorem exists_branch (hordered : Ordered pages) (hpage : page ∈ pages) :
    ∃ sub, (pages.filter fun p => p.id ∈ subtreeIds pages page.id) = page :: sub ∧ (∀ p ∈ sub, p.id ≠ page.id) ∧
      ∀ parent, page.parent_id = some parent → parent ∉ subtreeIds pages page.id := by
  obtain ⟨a, sub, b, hpages, -, hwithin⟩ := hordered.listed.contiguous hordered.unique (fun p hp => by cases hp) hpage
  have hmem : ∀ p ∈ pages, p.id ∈ subtreeIds pages page.id ↔ p = page ∨ p ∈ sub := fun p hp =>
    (mem_subtreeIds hordered page.id p.id).trans (hwithin p hp)
  have hunique := hordered.unique
  rw [hpages] at hunique
  simp only [List.map_append, List.map_cons, List.nodup_append, List.nodup_cons, List.mem_append, not_or,
    List.mem_cons] at hunique
  obtain ⟨-, ⟨⟨hpagesub, hpageb⟩, -, -, hsubb⟩, hafter⟩ := hunique
  -- what is before the page is not below it, and neither is what follows the subtree
  have hbefore : ∀ p ∈ a, ¬ (p = page ∨ p ∈ sub) := by
    rintro p hp (rfl | hsub)
    · exact hafter p.id (List.mem_map_of_mem hp) p.id (Or.inl rfl) rfl
    · exact hafter p.id (List.mem_map_of_mem hp) p.id (Or.inr (Or.inl (List.mem_map_of_mem hsub))) rfl
  have hbehind : ∀ p ∈ b, ¬ (p = page ∨ p ∈ sub) := by
    rintro p hp (rfl | hsub)
    · exact hpageb (List.mem_map_of_mem hp)
    · exact hsubb p.id (List.mem_map_of_mem hsub) p.id (List.mem_map_of_mem hp) rfl
  refine ⟨sub, ?_, fun p hp he => hpagesub (he ▸ List.mem_map_of_mem hp), fun parent hparent hin => ?_⟩
  · have hfilter : (pages.filter fun p => p.id ∈ subtreeIds pages page.id) =
        pages.filter fun p => p = page ∨ p ∈ sub :=
      List.filter_congr fun p hp => decide_eq_decide.2 (hmem p hp)
    have ha : (a.filter fun p => p = page ∨ p ∈ sub) = [] :=
      List.filter_eq_nil_iff.2 fun p hp => by simpa using hbefore p hp
    have hb : (b.filter fun p => p = page ∨ p ∈ sub) = [] :=
      List.filter_eq_nil_iff.2 fun p hp => by simpa using hbehind p hp
    have hself : (sub.filter fun p => p = page ∨ p ∈ sub) = sub := List.filter_eq_self.2 fun p hp => by simp [hp]
    rw [hfilter, hpages, List.filter_append, ha, List.nil_append, List.filter_cons_of_pos (by simp),
      List.filter_append, hself, hb, List.append_nil]
  · rcases hordered.listed.parent_before hpages with hnone | ⟨q, hq, hsome⟩
    · rw [hnone] at hparent
      cases hparent
    · obtain rfl := Option.some.inj (hparent.symm.trans hsome)
      exact hbefore q hq ((hmem q (hpages ▸ List.mem_append_left _ hq)).1 hin)

theorem copyId_self (page_id new_id : String) (ids : List String) : copyId uuid5 new_id page_id ids page_id = new_id :=
  if_pos rfl

theorem copyId_of_not_mem {page_id id : String} {ids : List String} (h : id ∉ ids) (hne : id ≠ page_id) :
    copyId uuid5 new_id page_id ids id = id := by
  rw [copyId, if_neg hne, if_neg h]

theorem perm_inserted (pages copies : List Page) (position : ℕ) :
    (pages.take position ++ copies ++ pages.drop position).Perm (pages ++ copies) := by
  rw [List.append_assoc]
  refine (List.Perm.append_left _ List.perm_append_comm).trans ?_
  rw [← List.append_assoc, List.take_append_drop]

theorem duplicatePage_spec (hordered : Ordered pages) (hpage : page ∈ pages)
    (h : duplicatePage uuid5 new_id page pages = .ok out) :
    ∃ (branch : List Page) (rename : String → String), IsBranch pages page branch ∧ rename page.id = new_id ∧
      (∀ p ∈ branch, rename p.id ∉ pages.map Page.id) ∧
      out.Perm (pages ++ branch.map (copyInBranch rename page)) := by
  obtain ⟨sub, hbranch, hsub, hparent⟩ := exists_branch hordered hpage
  unfold duplicatePage at h
  dsimp only at h
  rw [hbranch] at h
  split at h
  · cases h
  rename_i hfresh
  rw [← Except.ok.inj h]
  clear h
  refine ⟨page :: sub, copyId uuid5 new_id page.id (subtreeIds pages page.id), ⟨?_, fun p hp => ?_⟩,
    copyId_self page.id new_id _, fun p hp hin => ?_, ?_⟩
  · rw [← hbranch]
    exact List.filter_sublist
  · rw [← hbranch, List.mem_filter, ← mem_subtreeIds hordered]
    simp [hp]
  · refine hfresh (List.any_eq_true.2 ⟨_, List.mem_map_of_mem hp, ?_⟩)
    simpa [copyPage] using hin
  have hhead : page.parent_id.map (copyId uuid5 new_id page.id (subtreeIds pages page.id)) = page.parent_id := by
    cases hp : page.parent_id with
    | none => rfl
    | some parent =>
      have hnot := hparent parent hp
      have hne : parent ≠ page.id := fun he => hnot (he ▸ (mem_subtreeIds hordered page.id page.id).2 .root)
      rw [Option.map_some, copyId_of_not_mem hnot hne]
  have hcopies : ((page :: sub).map (copyPage (copyId uuid5 new_id page.id (subtreeIds pages page.id)))).modifyHead
      (fun copy => { copy with title := copyTitle page.title }) =
      (page :: sub).map (copyInBranch (copyId uuid5 new_id page.id (subtreeIds pages page.id)) page) := by
    rw [List.map_cons, List.modifyHead_cons, List.map_cons]
    congr 1
    · simp only [copyPage, copyInBranch, hhead, ↓reduceIte]
    · refine List.map_congr_left fun p hp => ?_
      simp only [copyPage, copyInBranch, hsub p hp, ↓reduceIte]
  rw [hcopies]
  exact perm_inserted pages _ _

theorem operate_cases (h : operate uuid5 op pages = .ok out) :
    (op.action = .create ∧ createPage op (op.new_id.getD "") pages = .ok out) ∨
    (op.action = .reorder ∧ reorderPages op pages = .ok out) ∨
    ∃ page ∈ pages, some page.id = op.page_id ∧
      ((op.action = .rename ∧ renamePage op page pages = .ok out) ∨
        (op.action = .move ∧ page.id ≠ "main" ∧ movePage op page pages = .ok out) ∨
        (op.action = .delete ∧ page.id ≠ "main" ∧ deletePage page pages = .ok out) ∨
        (op.action = .duplicate ∧ duplicatePage uuid5 (op.new_id.getD "") page pages = .ok out)) := by
  unfold operate at h
  cases haction : op.action <;> rw [haction] at h <;> dsimp only at h
  case create => exact Or.inl ⟨rfl, h⟩
  case reorder => exact Or.inr (Or.inl ⟨rfl, h⟩)
  all_goals
    refine Or.inr (Or.inr ?_)
    split at h
    · cases h
    rename_i page hfind
    refine ⟨page, List.mem_of_find?_eq_some hfind, by simpa using List.find?_some hfind, ?_⟩
    unfold operateOnPage at h
    split at h
    · cases h
    rename_i hallowed
    rw [haction] at h
    simp only [haction, reduceCtorEq, false_and, or_false, false_or, true_and, or_true, and_true] at hallowed ⊢
    first
      | exact h
      | exact ⟨hallowed, h⟩

theorem effect_of_operate (hordered : Ordered pages) (h : operate uuid5 op pages = .ok out)
    (hunique : (out.map Page.id).Nodup) : Effect op pages out := by
  unfold Effect
  rcases operate_cases h with ⟨ha, h⟩ | ⟨ha, h⟩ | ⟨page, hpage, hid, h⟩
  · rw [ha, createPage_spec h]
  · rw [ha]
    exact reorderPages_spec hordered.unique h
  have heffect : EffectOn op page pages out := by
    unfold EffectOn
    rcases h with ⟨ha, h⟩ | ⟨ha, -, h⟩ | ⟨ha, -, h⟩ | ⟨ha, h⟩
    · rw [ha, renamePage_spec h]
    · rw [ha]
      exact movePage_spec hordered h
    · rw [ha, deletePage_spec h]
    rw [ha]
    obtain ⟨branch, rename, hbranch, hnew, hfresh, hperm⟩ := duplicatePage_spec hordered hpage h
    refine ⟨branch, rename, hbranch, hnew, ?_, hfresh, hperm⟩
    rw [(hperm.map Page.id).nodup_iff, List.map_append, List.nodup_append] at hunique
    simpa [copyInBranch, Function.comp_def] using hunique.2.1
  rcases h with ⟨ha, -⟩ | ⟨ha, -⟩ | ⟨ha, -⟩ | ⟨ha, -⟩
  all_goals
    rw [ha]
    exact ⟨page, hpage, hid, heffect⟩

theorem fit_of_operate (hordered : Ordered pages) (hfit : Fit pages) (h : operate uuid5 op pages = .ok out)
    (hnew : op.action.makesPage = true → op.new_id.getD "" ∉ pages.map Page.id) : Fit out := by
  have hmain : "main" ∈ pages.map Page.id := by
    obtain ⟨main, hmain, hid⟩ := hfit.main
    exact hid ▸ List.mem_map_of_mem hmain
  rcases operate_cases h with
    ⟨ha, h⟩ | ⟨-, h⟩ | ⟨page, hpage, -, ⟨-, h⟩ | ⟨-, hne, h⟩ | ⟨-, hne, h⟩ | ⟨-, h⟩⟩
  · rw [createPage_spec h]
    refine hfit.append (fun p hp hid => ?_) fun p hp => ?_
    · obtain rfl := List.mem_singleton.1 hp
      have hnewid : op.new_id.getD "" = "main" := hid
      exact hnew (by rw [ha]; rfl) (hnewid ▸ hmain)
    · obtain rfl := List.mem_singleton.1 hp
      rfl
  · exact hfit.perm (reorderPages_spec hordered.unique h)
  · rw [renamePage_spec h]
    refine hfit.map (fun p => ?_) (fun p hp hid => ?_) fun p => ?_
    · split <;> rfl
    · have hroot := hfit.main_root p hp hid
      split <;> exact hroot
    · split <;> rfl
  · refine Fit.perm (hfit.map (fun p => ?_) (fun p hp hid => ?_) fun p => ?_) (movePage_spec hordered h)
    · split <;> rfl
    · have hother : p.id ≠ page.id := fun he => hne (he ▸ hid)
      rw [if_neg hother]
      exact hfit.main_root p hp hid
    · split <;> rfl
  · rw [deletePage_spec h]
    refine (hfit.filter hne).map (fun p => ?_) (fun p hp hid => ?_) fun p => ?_
    · split <;> rfl
    · have hroot := hfit.main_root p (List.mem_of_mem_filter hp) hid
      have hnot : p.parent_id ≠ some page.id := by
        rw [hroot]
        exact fun he => Option.some_ne_none _ he.symm
      rw [if_neg hnot]
      exact hroot
    · split <;> rfl
  · obtain ⟨branch, rename, hbranch, -, hfresh, hperm⟩ := duplicatePage_spec hordered hpage h
    refine Fit.perm (hfit.append (fun p hp hid => ?_) fun p hp => ?_) hperm
    · obtain ⟨q, hq, rfl⟩ := List.mem_map.1 hp
      have hcopy : rename q.id = "main" := hid
      exact hfresh q hq (hcopy ▸ hmain)
    · obtain ⟨q, hq, rfl⟩ := List.mem_map.1 hp
      exact hfit.no_files q (hbranch.1.subset hq)

end Operations

section Calls

variable {legacy : LegacyFiles} {uuid5 : String → String → String} {data d : NoteData} {op : PageOperation}

theorem applyPageOperation_spec (hdata : Stored data) (h : applyPageOperation legacy uuid5 data op = .ok d) :
    (op.action.makesPage = true ∧ (∃ page ∈ data.pages, some page.id = op.new_id) ∧ d = data) ∨
    (some op.revision = data.pages_revision ∧ d.pages_revision = some (op.revision + 1) ∧ d.extra = data.extra ∧
      Effect op data.pages d.pages) := by
  unfold applyPageOperation at h
  rw [normalizePages_stored legacy hdata] at h
  simp only [bind, Except.bind] at h
  split at h
  · cases h
  rename_i hempty
  split at h
  · cases h
  split at h
  · rename_i hexists
    rw [Bool.and_eq_true, List.any_eq_true] at hexists
    obtain ⟨hmakes, page, hpage, hid⟩ := hexists
    exact Or.inl ⟨hmakes, ⟨page, hpage, by simpa using hid⟩, (Except.ok.inj h).symm⟩
  rename_i hnew
  split at h
  · cases h
  rename_i hrevision
  rw [ne_eq, not_not] at hrevision
  split at h
  · cases h
  rename_i pages hpages
  have hfresh : op.action.makesPage = true → op.new_id.getD "" ∉ data.pages.map Page.id := by
    intro hmakes hin
    obtain ⟨page, hpage, hpageid⟩ := List.mem_map.1 hin
    rw [hmakes, Bool.true_and, List.any_eq_true] at hnew
    cases hop : op.new_id with
    | none => simp [hmakes, hop] at hempty
    | some new_id => exact hnew ⟨page, hpage, by simpa [hop] using hpageid⟩
  have hfit := fit_of_operate hdata.ordered hdata.fit hpages hfresh
  obtain ⟨hperm, -, hrev, hextra⟩ := normalizePages_changed h hdata hfit.main hfit.main_root hfit.no_files
  have hunique : (pages.map Page.id).Nodup :=
    (hperm.map Page.id).nodup_iff.1 (stored_of_normalizePages h).1.ordered.unique
  refine Or.inr ⟨hrevision, ?_, hextra, (effect_of_operate hdata.ordered hpages hunique).perm hperm⟩
  rw [hrev, ← hrevision]
  rfl

theorem stored_of_applyPageOperation (h : applyPageOperation legacy uuid5 data op = .ok d) : Stored d := by
  unfold applyPageOperation at h
  simp only [bind, Except.bind] at h
  split at h
  · cases h
  rename_i normal hnormal
  split at h
  · cases h
  split at h
  · cases h
  split at h
  · exact Except.ok.inj h ▸ (stored_of_normalizePages hnormal).1
  split at h
  · cases h
  split at h
  · cases h
  · exact (stored_of_normalizePages h).1

structure Rewritten (changes : PageChanges) (generation : Option ℤ) (page changed : Page) : Prop where
  id : changed.id = page.id
  parent_id : changed.parent_id = page.parent_id
  title : changed.title = page.title
  inherit : changed.inherit_note_title = page.inherit_note_title
  files : changed.files = page.files
  versions : changed.versions = changes.versions.getD page.versions
  untouched : changes.content = none →
    changed.content = page.content ∧ changed.revision = page.revision ∧ changed.generation = page.generation
  written : ∀ content, changes.content = some content →
    contentOf content = .ok changed.content ∧ changed.revision = page.revision + 1 ∧
      changed.generation = if generation.isNone then page.generation + 1 else page.generation

theorem changedPage_spec (h : changedPage changes generation page = .ok changed) :
    Rewritten changes generation page changed := by
  unfold changedPage at h
  cases hcontent : changes.content with
  | none =>
    rw [hcontent] at h
    cases h
    exact ⟨rfl, rfl, rfl, rfl, rfl, rfl, fun _ => ⟨rfl, rfl, rfl⟩, fun c hc => by simp [hcontent] at hc⟩
  | some content =>
    rw [hcontent] at h
    simp only [bind, Except.bind] at h
    cases hparsed : contentOf content with
    | error e => simp [hparsed, Except.map] at h
    | ok parsed =>
      simp only [hparsed, Except.map] at h
      cases h
      refine ⟨rfl, rfl, rfl, rfl, rfl, rfl, fun hc => by simp [hcontent] at hc, fun c hc => ?_⟩
      obtain rfl := Option.some.inj (hcontent.symm.trans hc)
      exact ⟨hparsed, rfl, rfl⟩

/-- What a successful `updatePageContent` does. -/
def ContentEffect (page_id : Option String) (changes : PageChanges) (generation revision : Option ℤ)
    (before after : List Page) : Prop :=
  ∃ page ∈ before, (page_id = some page.id ∨ page_id = none ∧ before = [page]) ∧
    (∀ g, generation = some g → page.generation = g) ∧ (∀ r, revision = some r → page.revision = r) ∧
    ∃ changed, Rewritten changes generation page changed ∧
      after = before.map fun p => if p.id = page.id then changed else p

theorem getPage_spec (hdata : Stored data) (h : getPage legacy data page_id = .ok page) :
    page ∈ data.pages ∧ (page_id = some page.id ∨ page_id = none ∧ data.pages = [page]) := by
  unfold getPage at h
  rw [normalizePages_stored legacy hdata] at h
  simp only [bind, Except.bind] at h
  split at h
  · split at h
    · rename_i p hpages
      obtain rfl := Except.ok.inj h
      exact ⟨hpages ▸ List.mem_singleton_self p, Or.inr ⟨rfl, hpages⟩⟩
    · cases h
  · split at h
    · rename_i id _ p hfind
      obtain rfl := Except.ok.inj h
      have hid : p.id = id := by simpa using List.find?_some hfind
      exact ⟨List.mem_of_find?_eq_some hfind, Or.inl (by rw [hid])⟩
    · cases h

theorem stored_of_updatePageContent
    (h : updatePageContent legacy data page_id changes generation revision = .ok d) : Stored d := by
  unfold updatePageContent at h
  simp only [bind, Except.bind] at h
  repeat' split at h
  all_goals first
    | exact (stored_of_normalizePages h).1
    | cases h

theorem updatePageContent_spec (hdata : Stored data)
    (h : updatePageContent legacy data page_id changes generation revision = .ok d) :
    d.pages_revision = data.pages_revision ∧ d.extra = data.extra ∧
      ContentEffect page_id changes generation revision data.pages d.pages := by
  unfold updatePageContent at h
  rw [normalizePages_stored legacy hdata] at h
  simp only [bind, Except.bind] at h
  split at h
  · cases h
  rename_i target htarget
  obtain ⟨htargetmem, htargetid⟩ := getPage_spec hdata htarget
  split at h
  · cases h
  rename_i page hfind
  have hid : page.id = target.id := by simpa using List.find?_some hfind
  obtain rfl := eq_of_id_eq hdata.ordered.unique (List.mem_of_find?_eq_some hfind) htargetmem hid
  split at h
  · cases h
  rename_i hgeneration
  split at h
  · cases h
  rename_i hrevision
  split at h
  · cases h
  rename_i changed hchanged
  split at h
  · cases h
  have hrewritten := changedPage_spec hchanged
  -- the changed page has the id and the parent of the page
  have hsame : ∀ p ∈ data.pages, (if p.id = page.id then changed else p).id = p.id ∧
      (if p.id = page.id then changed else p).parent_id = p.parent_id ∧
      (if p.id = page.id then changed else p).files = p.files := by
    intro p hp
    split
    · rename_i he
      obtain rfl := eq_of_id_eq hdata.ordered.unique hp htargetmem he
      exact ⟨hrewritten.id, hrewritten.parent_id, hrewritten.files⟩
    · exact ⟨rfl, rfl, rfl⟩
  have hordered : Ordered (data.pages.map fun p => if p.id = page.id then changed else p) :=
    hdata.ordered.map (fun p hp => (hsame p hp).1) fun p hp => (hsame p hp).2.1
  obtain ⟨-, horder, hrev, hextra⟩ := normalizePages_changed h hdata
    (by
      obtain ⟨main, hmain, hmainid⟩ := hdata.main
      exact ⟨_, List.mem_map_of_mem hmain, (hsame main hmain).1.trans hmainid⟩)
    hordered.main_root
    (fun p hp => by
      obtain ⟨q, hq, rfl⟩ := List.mem_map.1 hp
      exact (hsame q hq).2.2.trans (hdata.no_page_files q hq))
  rw [orderPages_of_ordered hordered] at horder
  refine ⟨?_, hextra, page, htargetmem, htargetid, fun g hg => ?_, fun r hr => ?_, changed, hrewritten,
    (Except.ok.inj horder).symm⟩
  · obtain ⟨n, hn⟩ := Option.isSome_iff_exists.1 hdata.revision
    rw [hrev, hn]
    rfl
  · rw [hg, Option.any_some, decide_eq_true_eq, not_not] at hgeneration
    exact hgeneration.symm
  · rw [hr, Option.any_some, decide_eq_true_eq, not_not] at hrevision
    exact hrevision.symm

end Calls

/-! ## Every sequence of calls -/

structure WellFormed (data : NoteData) : Prop where
  unique : (data.pages.map Page.id).Nodup
  main_first : ∃ main rest, data.pages = main :: rest ∧ main.id = "main" ∧ main.parent_id = none
  parents : ∀ page ∈ data.pages, ∀ parent, page.parent_id = some parent → ∃ q ∈ data.pages, q.id = parent
  /-- A page comes directly before everything below it. -/
  preorder : ∀ page ∈ data.pages, ∃ before below behind, data.pages = before ++ page :: (below ++ behind) ∧
    ∀ q ∈ data.pages, Outline.Within Page.id Page.parent_id data.pages page.id q.id ↔ q = page ∨ q ∈ below
  content : data.content = some (projectContent data.pages)
  search_text : data.search_text = some (projectSearchText data.pages)

theorem Stored.wellFormed (h : Stored data) : WellFormed data where
  unique := h.ordered.unique
  main_first := by
    obtain ⟨main, hmain, hid, hroot⟩ := h.main_root
    have hhead := h.ordered.main_first main hmain hid
    obtain ⟨rest, hrest⟩ := List.head?_eq_some_iff.1 hhead
    exact ⟨main, rest, hrest, hid, hroot⟩
  parents page hpage parent hparent := by
    rcases h.ordered.listed.parent_mem hpage with hnone | ⟨q, hq, hsome⟩
    · rw [hnone] at hparent
      cases hparent
    · exact ⟨q, hq, Option.some.inj (hsome.symm.trans hparent)⟩
  preorder page hpage := by
    obtain ⟨a, sub, b, hpages, -, hwithin⟩ :=
      h.ordered.listed.contiguous h.ordered.unique (fun p hp => by cases hp) hpage
    exact ⟨a, sub, b, hpages, hwithin⟩
  content := h.content
  search_text := h.search_text

inductive Call where
  | operation (op : PageOperation)
  | content (page_id : Option String) (changes : PageChanges) (generation revision : Option ℤ)

section Runs

variable (legacy : LegacyFiles) (uuid5 : String → String → String)

def call (data : NoteData) : Call → Except NoteError NoteData
  | .operation op => applyPageOperation legacy uuid5 data op
  | .content page_id changes generation revision =>
    updatePageContent legacy data page_id changes generation revision

def step (data : NoteData) (c : Call) : Option NoteData :=
  some <|
    match call legacy uuid5 data c with
    | .ok d => d
    | .error _ => data

variable {legacy uuid5}

theorem Stored.step (h : Stored data) (hstep : step legacy uuid5 data c = some d) : Stored d := by
  unfold Notes.step at hstep
  cases hstep
  split
  · rename_i out hout
    cases c with
    | operation op => exact stored_of_applyPageOperation hout
    | content page_id changes generation revision => exact stored_of_updatePageContent hout
  · exact h

theorem step_of_stale (hdata : Stored data) (h : some op.revision ≠ data.pages_revision) :
    step legacy uuid5 data (.operation op) = some data := by
  unfold step
  congr 1
  split
  · rename_i out hout
    rcases applyPageOperation_spec hdata hout with ⟨-, -, rfl⟩ | ⟨hrevision, -⟩
    · rfl
    · exact absurd hrevision h
  · rfl

theorem exists_normalizePages (legacy : LegacyFiles) (h : note.pages = []) (title : Option String) :
    ∃ start, normalizePages legacy note title = .ok start := by
  obtain ⟨page, hpages, hid, hroot⟩ : ∃ page, withMain title note = [page] ∧ page.id = "main" ∧ page.parent_id = none := by
    refine ⟨newPage "main" none (titleOrUntitled title)
      ((note.content.filter fun c => c.md.isSome || !c.fields.isEmpty).getD emptyContent)
      ((note.versions.filter Json.truthy).getD (.arr [])), ?_, rfl, rfl⟩
    rw [withMain, h]
    rfl
  have hordered : Ordered [inheritTitle title page] := by
    have hlisted : Outline.Listed Page.id Page.parent_id none (inheritTitle title page :: ([] ++ [])) :=
      .node (by rw [inheritTitle_parent_id, hroot]) (.nil _) (.nil _)
    refine ⟨List.nodup_singleton _, hlisted, fun p hp _ => ?_, fun p hp _ => ?_⟩
    · rw [List.mem_singleton.1 hp, inheritTitle_parent_id, hroot]
    · rw [List.mem_singleton.1 hp]
      rfl
  rw [normalizePages, hpages, List.map_singleton, orderPages_of_ordered hordered]
  exact ⟨_, rfl⟩

/-- Pages stay well formed, every call does what it is for, and normalising is idempotent. -/
theorem pages_stay_wellFormed (legacy : LegacyFiles) (uuid5 : String → String → String) {note : NoteData}
    (hnote : note.pages = []) (title : Option String) :
    (∃ start, normalizePages legacy note title = .ok start ∧
      ∀ calls data, Machine.AnyRun (step legacy uuid5) start calls data →
        WellFormed data ∧
        (∀ op d, applyPageOperation legacy uuid5 data op = .ok d →
          (op.action.makesPage = true ∧ (∃ page ∈ data.pages, some page.id = op.new_id) ∧ d = data) ∨
          (some op.revision = data.pages_revision ∧ d.pages_revision = some (op.revision + 1) ∧
            d.extra = data.extra ∧ Effect op data.pages d.pages)) ∧
        (∀ op, some op.revision ≠ data.pages_revision → step legacy uuid5 data (.operation op) = some data) ∧
        ∀ page_id changes generation revision d,
          updatePageContent legacy data page_id changes generation revision = .ok d →
          d.pages_revision = data.pages_revision ∧ d.extra = data.extra ∧
            ContentEffect page_id changes generation revision data.pages d.pages) ∧
    ∀ data t d, normalizePages legacy data t = .ok d →
      normalizePages legacy d t = .ok d ∧ normalizePages legacy d none = .ok d := by
  refine ⟨?_, fun data t d h => ?_⟩
  · obtain ⟨start, hstart⟩ := exists_normalizePages legacy hnote title
    refine ⟨start, hstart, fun calls data hrun => ?_⟩
    have hdata : Stored data :=
      hrun.invariant (fun s c d hs _ hstep => hs.step hstep) (stored_of_normalizePages hstart).1
    exact ⟨hdata.wellFormed, fun op d => applyPageOperation_spec hdata, fun op => step_of_stale hdata,
      fun page_id changes generation revision d => updatePageContent_spec hdata⟩
  · obtain ⟨hstored, htitles⟩ := stored_of_normalizePages h
    exact ⟨normalizePages_of_stored legacy hstored htitles, normalizePages_stored legacy hstored⟩

theorem pages_stay_wellFormed_subpage :
    let legacy : LegacyFiles := ⟨fun _ _ _ => false, fun _ _ _ => none⟩
    let uuid5 := fun a b : String => a ++ b
    let new_id := "00000000-0000-4000-8000-000000000001"
    let note : NoteData := ⟨[], none, some ⟨some "hi", []⟩, none, none, none, []⟩
    let create : PageOperation := ⟨.create, none, some new_id, some "main", none, some " Sub ", none, 0⟩
    let move : PageOperation := ⟨.move, some new_id, none, none, none, none, none, 1⟩
    let write : PageChanges := ⟨some (.obj [("md", .str "text")]), none, none⟩
    ∃ start data, normalizePages legacy note (some "Title") = .ok start ∧
      Machine.exec (step legacy uuid5) start
        [.operation create, .content (some new_id) write none (some 0), .operation move] = some data ∧
      data.search_text = some "Title\nhi\n\nSub\ntext" ∧ WellFormed data := by
  intro legacy uuid5 new_id note create move write
  obtain ⟨start, hstart, hcalls⟩ := (@pages_stay_wellFormed legacy uuid5 note rfl (some "Title")).1
  have hrun : ((normalizePages legacy note (some "Title")).toOption.bind fun start =>
      Machine.exec (step legacy uuid5) start
        [.operation create, .content (some new_id) write none (some 0), .operation move]).map NoteData.search_text =
        some (some "Title\nhi\n\nSub\ntext") := by
    dsimp only [legacy, uuid5, new_id, note, create, move, write]
    decide +kernel
  rw [hstart, Except.toOption, Option.bind_some, Option.map_eq_some_iff] at hrun
  obtain ⟨data, hexec, htext⟩ := hrun
  exact ⟨start, data, hstart, hexec, htext, (hcalls _ data (Machine.anyRun_of_exec hexec)).1⟩

end Runs

end RyanAI.Notes
