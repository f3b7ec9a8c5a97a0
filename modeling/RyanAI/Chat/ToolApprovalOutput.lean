import RyanAI.Chat.ToolApproval
import Mathlib.Data.List.Forall2
import Mathlib.Tactic.Common

/-!
# Changes of an output

The two ways in which a transaction changes the calls of an output: it changes the first call with some
property, which under distinct ids is one call (`calls_modifyFirst`), and it stores the output in its normal
form, which changes nothing that the protocol looks at (`normOutput_normalize`, `pending_normalize`).
-/

namespace RyanAI.Chat.ToolApproval

open RyanAI.Lib

/-! ## Changing one call -/

@[simp]
theorem calls_append (xs ys : List Item) : calls (xs ++ ys) = calls xs ++ calls ys := List.filterMap_append

@[simp]
theorem results_append (xs ys : List Item) : results (xs ++ ys) = results xs ++ results ys := List.filterMap_append

@[simp]
theorem results_modifyFirst (p : Call → Bool) (f : Call → Call) (output : List Item) :
    results (modifyFirst p f output) = results output := by
  induction output with
  | nil => rfl
  | cons item rest ih =>
    cases item with
    | call c =>
      simp only [modifyFirst]
      split
      · rfl
      · exact ih
    | result r => exact congrArg (r.callId :: ·) ih
    | continuation => exact ih
    | other content => exact ih

def DistinctCalls (output : List Item) : Prop := ((calls output).map Call.callId).Nodup

instance (output : List Item) : Decidable (DistinctCalls output) :=
  inferInstanceAs (Decidable ((calls output).map Call.callId).Nodup)

def mapCall (id : String) (f : Call → Call) (cs : List Call) : List Call :=
  cs.map fun c => if c.callId = id then f c else c

theorem mapCall_of_not_mem {id : String} {f : Call → Call} {cs : List Call} (h : id ∉ cs.map Call.callId) :
    mapCall id f cs = cs := by
  have hsame : ∀ c ∈ cs, (if c.callId = id then f c else c) = c := by
    intro c hc
    rw [if_neg]
    rintro rfl
    exact h (List.mem_map.2 ⟨c, hc, rfl⟩)
  rw [mapCall, List.map_congr_left hsame, List.map_id']

theorem calls_modifyFirst {p : Call → Bool} {f : Call → Call} {output : List Item}
    (hdistinct : DistinctCalls output) {c : Call} (hfind : (calls output).find? p = some c) :
    calls (modifyFirst p f output) = mapCall c.callId f (calls output) := by
  induction output with
  | nil => cases hfind
  | cons item rest ih =>
    cases item with
    | call d =>
      have hcalls : calls (.call d :: rest) = d :: calls rest := rfl
      rw [DistinctCalls, hcalls, List.map_cons, List.nodup_cons] at hdistinct
      rw [hcalls, List.find?_cons] at hfind
      rw [hcalls, mapCall, List.map_cons]
      cases hp : p d with
      | true =>
        rw [hp] at hfind
        obtain rfl : d = c := Option.some.inj hfind
        have hrest := @mapCall_of_not_mem d.callId f (calls rest) hdistinct.1
        rw [modifyFirst, if_pos hp, if_pos rfl]
        exact congrArg (f d :: ·) hrest.symm
      | false =>
        rw [hp] at hfind
        have hne : d.callId ≠ c.callId := by
          intro heq
          have hmem : c ∈ calls rest := List.mem_of_find?_eq_some hfind
          exact hdistinct.1 (heq ▸ List.mem_map.2 ⟨c, hmem, rfl⟩)
        rw [modifyFirst, if_neg (by simp [hp]), if_neg hne]
        exact congrArg (d :: ·) (ih hdistinct.2 hfind)
    | result r => exact ih hdistinct hfind
    | continuation => exact ih hdistinct hfind
    | other content => exact ih hdistinct hfind

variable {output round : List Item} {c' c : Call}

theorem modifyFirst_of_none {p : Call → Bool} {f : Call → Call} (hfind : (calls output).find? p = none) :
    modifyFirst p f output = output := by
  induction output with
  | nil => rfl
  | cons item rest ih =>
    cases item with
    | call d =>
      have hcalls : calls (.call d :: rest) = d :: calls rest := rfl
      rw [hcalls, List.find?_cons] at hfind
      cases hp : p d with
      | true =>
        rw [hp] at hfind
        cases hfind
      | false =>
        rw [hp] at hfind
        rw [modifyFirst, if_neg (by simp [hp]), ih hfind]
    | result r => exact congrArg (Item.result r :: ·) (ih hfind)
    | continuation => exact congrArg (Item.continuation :: ·) (ih hfind)
    | other content => exact congrArg (Item.other content :: ·) (ih hfind)

theorem mem_mapCall {id : String} {f : Call → Call} {cs : List Call} :
    c' ∈ mapCall id f cs ↔ ∃ c ∈ cs, (c.callId = id ∧ c' = f c) ∨ (c.callId ≠ id ∧ c' = c) := by
  simp only [mapCall, List.mem_map]
  constructor
  · rintro ⟨c, hc, rfl⟩
    refine ⟨c, hc, ?_⟩
    by_cases hid : c.callId = id
    · exact .inl ⟨hid, by rw [if_pos hid]⟩
    · exact .inr ⟨hid, by rw [if_neg hid]⟩
  · rintro ⟨c, hc, ⟨hid, rfl⟩ | ⟨hid, rfl⟩⟩
    · exact ⟨c, hc, by rw [if_pos hid]⟩
    · exact ⟨c', hc, by rw [if_neg hid]⟩

theorem eq_of_callId {cs : List Call} (h : (cs.map Call.callId).Nodup) {a b : Call} (ha : a ∈ cs) (hb : b ∈ cs)
    (heq : a.callId = b.callId) : a = b := by
  induction cs with
  | nil => cases ha
  | cons d rest ih =>
    rw [List.map_cons, List.nodup_cons] at h
    rcases List.mem_cons.1 ha with rfl | ha' <;> rcases List.mem_cons.1 hb with rfl | hb'
    · rfl
    · exact absurd (heq ▸ List.mem_map.2 ⟨b, hb', rfl⟩) h.1
    · exact absurd (heq ▸ List.mem_map.2 ⟨a, ha', rfl⟩) h.1
    · exact ih h.2 ha' hb'

/-! ## The normal form -/

def NormCall (c c' : Call) : Prop := c' = c ∨ c.status = .completed ∧ c' = setStatus .unknown c

theorem NormCall.callId (h : NormCall c c') : c'.callId = c.callId := by
  rcases h with rfl | ⟨-, rfl⟩ <;> rfl

theorem NormCall.approved (h : NormCall c c') : c'.approved = c.approved := by
  rcases h with rfl | ⟨-, rfl⟩ <;> rfl

theorem NormCall.trans (hab : NormCall a b) (hbc : NormCall b c) : NormCall a c := by
  rcases hab with rfl | ⟨hdone, rfl⟩
  · exact hbc
  · rcases hbc with rfl | ⟨hstatus, -⟩
    · exact .inr ⟨hdone, rfl⟩
    · cases hstatus

structure NormOutput (output output' : List Item) : Prop where
  calls : List.Forall₂ NormCall (calls output) (calls output')
  results : ∀ id, id ∈ results output' ↔ id ∈ results output
  sublist : (ToolApproval.results output').Sublist (ToolApproval.results output)

theorem forall₂_refl_normCall (cs : List Call) : List.Forall₂ NormCall cs cs := by
  induction cs with
  | nil => exact .nil
  | cons c rest ih => exact .cons (.inl rfl) ih

theorem NormOutput.trans {a b c : List Item} (hab : NormOutput a b) (hbc : NormOutput b c) : NormOutput a c where
  calls := by
    have hcalls := hab.calls
    have hcalls' := hbc.calls
    revert hcalls hcalls'
    generalize ToolApproval.calls a = as
    generalize ToolApproval.calls b = bs
    generalize ToolApproval.calls c = cs
    intro hcalls hcalls'
    induction hcalls generalizing cs with
    | nil => exact hcalls'
    | cons h _ ih =>
      cases hcalls' with
      | cons h' hrest' => exact .cons (h.trans h') (ih _ hrest')
  results id := (hbc.results id).trans (hab.results id)
  sublist := hbc.sublist.trans hab.sublist

theorem NormOutput.append {a a' b b' : List Item} (ha : NormOutput a a') (hb : NormOutput b b') :
    NormOutput (a ++ b) (a' ++ b') where
  calls := by
    rw [calls_append, calls_append]
    exact List.rel_append ha.calls hb.calls
  results id := by
    rw [results_append, results_append, List.mem_append, List.mem_append, ha.results, hb.results]
  sublist := by
    rw [results_append, results_append]
    exact ha.sublist.append hb.sublist

theorem NormOutput.refl (output : List Item) : NormOutput output output :=
  ⟨forall₂_refl_normCall _, fun _ => Iff.rfl, List.Sublist.refl _⟩

theorem normOutput_pairResults (round : List Item) : NormOutput round (pairResults round) := by
  unfold pairResults
  generalize results round = ids
  induction round with
  | nil => exact NormOutput.refl []
  | cons item rest ih =>
    have hhead : NormOutput [item] [pairItem ids item] := by
      cases item with
      | call c =>
        simp only [pairItem]
        split
        · rename_i hcond
          exact ⟨.cons (.inr ⟨hcond.1, rfl⟩) .nil, fun _ => Iff.rfl, List.Sublist.refl _⟩
        · exact NormOutput.refl _
      | result r => exact NormOutput.refl _
      | continuation => exact NormOutput.refl _
      | other content => exact NormOutput.refl _
    exact hhead.append ih

theorem NormOutput.callIds (h : NormOutput output output') :
    (ToolApproval.calls output').map Call.callId = (ToolApproval.calls output).map Call.callId := by
  have hcalls := h.calls
  revert hcalls
  generalize ToolApproval.calls output = cs
  generalize ToolApproval.calls output' = cs'
  intro hcalls
  induction hcalls with
  | nil => rfl
  | cons hcall _ ih => rw [List.map_cons, List.map_cons, hcall.callId, ih]

theorem calls_merge_result (r : CallResult) (round : List Item) :
    calls (round.map fun old => if sameKey (.result r) old then mergeItem old (.result r) else old) =
      calls round := by
  induction round with
  | nil => rfl
  | cons old rest ih =>
    cases old with
    | call c => exact congrArg (c :: ·) ih
    | result r' =>
      rw [List.map_cons]
      split <;> exact ih
    | continuation => exact ih
    | other content => exact ih

theorem results_merge_result (r : CallResult) (round : List Item) :
    results (round.map fun old => if sameKey (.result r) old then mergeItem old (.result r) else old) =
      results round := by
  induction round with
  | nil => rfl
  | cons old rest ih =>
    cases old with
    | call c => exact ih
    | result r' =>
      rw [List.map_cons]
      split
      · rename_i hsame
        have hid : r.callId = r'.callId := (of_decide_eq_true hsame).1
        exact congrArg₂ List.cons hid ih
      · exact congrArg (r'.callId :: ·) ih
    | continuation => exact ih
    | other content => exact ih

theorem callId_mem_of_sameKey (h : round.any (sameKey (.call c)) = true) :
    c.callId ∈ (calls round).map Call.callId := by
  obtain ⟨old, hold, hsame⟩ := List.any_eq_true.1 h
  cases old with
  | call d =>
    have hid : c.callId = d.callId := (of_decide_eq_true hsame).1
    exact List.mem_map.2 ⟨d, List.mem_filterMap.2 ⟨_, hold, rfl⟩, hid.symm⟩
  | result r => cases hsame
  | continuation => cases hsame
  | other content => cases hsame

theorem resultId_mem_of_sameKey (h : round.any (sameKey (.result r)) = true) : r.callId ∈ results round := by
  obtain ⟨old, hold, hsame⟩ := List.any_eq_true.1 h
  cases old with
  | call d => cases hsame
  | result r' =>
    have hid : r.callId = r'.callId := (of_decide_eq_true hsame).1
    exact List.mem_filterMap.2 ⟨_, hold, congrArg some hid.symm⟩
  | continuation => cases hsame
  | other content => cases hsame

theorem normOutput_place (hdistinct : DistinctCalls (seen ++ [item])) (h : NormOutput seen (finished ++ round)) :
    NormOutput (seen ++ [item]) (finished ++ if round.any (sameKey item) then
          round.map fun old => if sameKey item old then mergeItem old item else old else round ++ [item]) := by
  split
  · rename_i hany
    cases item with
    | call c =>
      -- a second snapshot of a call is excluded by the distinct ids
      have hmem : c.callId ∈ (calls seen).map Call.callId := by
        rw [← h.callIds, calls_append, List.map_append]
        exact List.mem_append_right _ (callId_mem_of_sameKey hany)
      rw [DistinctCalls, calls_append, List.map_append, List.nodup_append] at hdistinct
      exact absurd rfl (hdistinct.2.2 c.callId hmem c.callId (List.mem_singleton.2 rfl))
    | result r =>
      have hmem : r.callId ∈ results seen := by
        rw [← h.results, results_append]
        exact List.mem_append_right _ (resultId_mem_of_sameKey hany)
      refine ⟨?_, ?_, ?_⟩
      · have hcalls := h.calls
        have hnil : calls [Item.result r] = [] := rfl
        rw [calls_append] at hcalls
        rw [calls_append, calls_append, calls_merge_result, hnil, List.append_nil]
        exact hcalls
      · intro id
        rw [results_append, results_append, results_merge_result, ← results_append, h.results, List.mem_append]
        constructor
        · exact .inl
        · rintro (hid | hid)
          · exact hid
          · obtain rfl : id = r.callId := List.mem_singleton.1 hid
            exact hmem
      · rw [results_append, results_append, results_merge_result, ← results_append]
        exact h.sublist.trans (List.sublist_append_left _ _)
    | continuation =>
      obtain ⟨old, _, hsame⟩ := List.any_eq_true.1 hany
      cases hsame
    | other content =>
      obtain ⟨old, _, hsame⟩ := List.any_eq_true.1 hany
      cases hsame
  · rw [← List.append_assoc]
    exact h.append (NormOutput.refl _)

theorem normOutput_step (hdistinct : DistinctCalls (seen ++ [item])) (h : NormOutput seen (acc.1 ++ acc.2)) :
    NormOutput (seen ++ [item]) ((normalizeStep acc item).1 ++ (normalizeStep acc item).2) := by
  have hacc : NormOutput seen
      ((if startsRound acc.2 item then (acc.1 ++ pairResults acc.2, []) else acc).1 ++
        (if startsRound acc.2 item then (acc.1 ++ pairResults acc.2, []) else acc).2) := by
    split
    · rw [List.append_nil]
      exact h.trans ((NormOutput.refl acc.1).append (normOutput_pairResults acc.2))
    · exact h
  unfold normalizeStep
  dsimp only
  revert hacc
  generalize (if startsRound acc.2 item then (acc.1 ++ pairResults acc.2, []) else acc) = acc'
  intro hacc
  have hplace := normOutput_place hdistinct hacc
  split
  · rename_i hany
    rwa [if_pos hany] at hplace
  · rename_i hany
    rwa [if_neg hany] at hplace

theorem normOutput_foldl {rest seen : List Item} {acc : List Item × List Item}
    (hdistinct : DistinctCalls (seen ++ rest)) (h : NormOutput seen (acc.1 ++ acc.2)) :
    NormOutput (seen ++ rest) ((rest.foldl normalizeStep acc).1 ++ (rest.foldl normalizeStep acc).2) := by
  induction rest generalizing seen acc with
  | nil =>
    rw [List.append_nil]
    exact h
  | cons item rest ih =>
    have hsplit : seen ++ item :: rest = (seen ++ [item]) ++ rest := by simp
    rw [hsplit] at hdistinct ⊢
    have hfirst : DistinctCalls (seen ++ [item]) := by
      rw [DistinctCalls, calls_append, List.map_append] at hdistinct
      exact hdistinct.of_append_left
    exact ih hdistinct (normOutput_step hfirst h)

theorem normOutput_normalize (hdistinct : DistinctCalls output) : NormOutput output (normalizeToolOutput output) := by
  have hfold := @normOutput_foldl output [] ([], []) hdistinct (NormOutput.refl [])
  exact hfold.trans ((NormOutput.refl _).append (normOutput_pairResults _))

theorem NormCall.isPending_eq (h : NormCall c c') (resolved : List String) :
    isPending resolved c' = isPending resolved c ∧ (isPending resolved c = true → c' = c) := by
  rcases h with rfl | ⟨hstatus, rfl⟩
  · exact ⟨rfl, fun _ => rfl⟩
  · have hc : isPending resolved c = false := by simp [isPending, hstatus, CallStatus.awaits]
    have hc' : isPending resolved (setStatus .unknown c) = false := by
      simp [isPending, setStatus, CallStatus.awaits]
    exact ⟨hc'.trans hc.symm, fun hpending => by rw [hc] at hpending; cases hpending⟩

theorem isPending_congr (h : ∀ id, id ∈ resolved' ↔ id ∈ resolved) : isPending resolved' = isPending resolved := by
  funext c
  simp only [isPending, h]

theorem NormOutput.pending (h : NormOutput output output') : pendingToolCalls output' = pendingToolCalls output := by
  unfold pendingToolCalls
  rw [isPending_congr h.results]
  generalize ToolApproval.results output = resolved
  have hcalls := h.calls
  revert hcalls
  generalize ToolApproval.calls output = cs
  generalize ToolApproval.calls output' = cs'
  intro hcalls
  induction hcalls with
  | nil => rfl
  | @cons c c' _ _ hcall _ ih =>
    obtain ⟨hsame, heq⟩ := hcall.isPending_eq resolved
    rw [List.filter_cons, List.filter_cons, hsame, ih]
    split
    · rename_i hpending
      rw [heq hpending]
    · rfl

theorem pending_normalize (hdistinct : DistinctCalls output) :
    pendingToolCalls (normalizeToolOutput output) = pendingToolCalls output :=
  (normOutput_normalize hdistinct).pending

end RyanAI.Chat.ToolApproval
