import RyanAI.Chat.ToolApprovalOutput
import RyanAI.Lib.Machine

/-!
# The tool approval protocol

Every change of the output is a `Moves`: calls keep their ids and their approval, results are only added, and no call
becomes pending that was not. `Transition` adds the effects that one transaction reports. Over every interleaving each
call receives one result at most, is resolved once at most, the model goes on once at most and with no call pending, and
a batch with pending calls has one that can go on (`approval_protocol`).
-/

namespace RyanAI.Chat.ToolApproval

open RyanAI.Lib

/-! ## What a change of the output keeps -/

structure Moves (output output' : List Item) (added : List String) : Prop where
  ids : (calls output').map Call.callId = (calls output).map Call.callId
  results : ∀ id, id ∈ results output' ↔ id ∈ results output ∨ id ∈ added
  sublist : (ToolApproval.results output').Sublist (ToolApproval.results output ++ added)
  approved : ∀ c ∈ calls output, c.approved = true → ∃ c' ∈ calls output', c'.callId = c.callId ∧ c'.approved = true
  pending : ∀ c' ∈ pendingToolCalls output', ∃ c ∈ pendingToolCalls output, c.callId = c'.callId

variable {output output' : List Item} {c call : Call} {added : List String} {p : Call → Bool} {id : String}
    {resolved received continued : Bool} {saved' saved start : Saved} {form : ResolveToolCallForm}

theorem mem_pendingToolCalls : c ∈ pendingToolCalls output ↔ c ∈ calls output ∧ isPending (results output) c = true :=
  List.mem_filter

theorem Moves.refl (output : List Item) : Moves output output [] where
  ids := rfl
  results id := by simp
  sublist := by simp
  approved c hc happroved := ⟨c, hc, rfl, happroved⟩
  pending c hc := ⟨c, hc, rfl⟩

theorem Moves.trans {a b c : List Item} {added' : List String} (h : Moves a b added) (h' : Moves b c added') :
    Moves a c (added ++ added') where
  ids := h'.ids.trans h.ids
  results id := by
    rw [h'.results, h.results, List.mem_append, or_assoc]
  sublist := by
    rw [← List.append_assoc]
    exact h'.sublist.trans (h.sublist.append (List.Sublist.refl _))
  approved call hcall happroved := by
    obtain ⟨call₁, hcall₁, hid₁, happroved₁⟩ := h.approved call hcall happroved
    obtain ⟨call₂, hcall₂, hid₂, happroved₂⟩ := h'.approved call₁ hcall₁ happroved₁
    exact ⟨call₂, hcall₂, hid₂.trans hid₁, happroved₂⟩
  pending call hcall := by
    obtain ⟨call₁, hcall₁, hid₁⟩ := h'.pending call hcall
    obtain ⟨call₂, hcall₂, hid₂⟩ := h.pending call₁ hcall₁
    exact ⟨call₂, hcall₂, hid₂.trans hid₁⟩

theorem Moves.distinct (h : Moves output output' added) (hdistinct : DistinctCalls output) : DistinctCalls output' := by
  rw [DistinctCalls, h.ids]
  exact hdistinct

theorem Moves.normalize (hdistinct : DistinctCalls output) : Moves output (normalizeToolOutput output) [] := by
  have hnorm := normOutput_normalize hdistinct
  refine ⟨hnorm.callIds, ?_, ?_, ?_, ?_⟩
  · intro id
    rw [hnorm.results]
    simp
  · rw [List.append_nil]
    exact hnorm.sublist
  · have hcalls := hnorm.calls
    revert hcalls
    generalize calls output = cs
    generalize calls (normalizeToolOutput output) = cs'
    intro hcalls c hc happroved
    induction hcalls with
    | nil => cases hc
    | @cons d d' _ _ hcall _ ih =>
      rcases List.mem_cons.1 hc with rfl | hc'
      · exact ⟨d', List.mem_cons_self, hcall.callId, by rw [hcall.approved, happroved]⟩
      · obtain ⟨c', hmem, hrest⟩ := ih hc'
        exact ⟨c', List.mem_cons_of_mem _ hmem, hrest⟩
  · intro c hc
    rw [hnorm.pending] at hc
    exact ⟨c, hc, rfl⟩

variable {p : Call → Bool}

variable {f : Call → Call}

variable {output : List Item}

theorem Moves.modifyFirst (hdistinct : DistinctCalls output) {c : Call} (hfind : (calls output).find? p = some c)
    (hid : (f c).callId = c.callId) (happroved : c.approved = true → (f c).approved = true)
    (hpending : isPending (ToolApproval.results output) (f c) = true →
      isPending (ToolApproval.results output) c = true) :
    Moves output (modifyFirst p f output) [] := by
  have hcalls := @calls_modifyFirst p f output hdistinct c hfind
  have hmem : c ∈ calls output := List.mem_of_find?_eq_some hfind
  -- the call of the id is the one that was found
  have honly : ∀ d ∈ calls output, d.callId = c.callId → d = c := fun d hd heq =>
    eq_of_callId hdistinct hd hmem heq
  refine ⟨?_, ?_, ?_, ?_, ?_⟩
  · rw [hcalls, mapCall, List.map_map]
    apply List.map_congr_left
    intro d hd
    simp only [Function.comp]
    split
    · rename_i heq
      rw [honly d hd heq, hid]
    · rfl
  · intro id
    rw [results_modifyFirst]
    simp
  · rw [results_modifyFirst, List.append_nil]
  · intro d hd hd'
    rw [hcalls]
    by_cases heq : d.callId = c.callId
    · obtain rfl := honly d hd heq
      exact ⟨f d, mem_mapCall.2 ⟨d, hd, .inl ⟨rfl, rfl⟩⟩, hid, happroved hd'⟩
    · exact ⟨d, mem_mapCall.2 ⟨d, hd, .inr ⟨heq, rfl⟩⟩, rfl, hd'⟩
  · intro d' hd'
    rw [mem_pendingToolCalls, results_modifyFirst, hcalls, mem_mapCall] at hd'
    obtain ⟨⟨d, hd, ⟨heq, rfl⟩ | ⟨hne, rfl⟩⟩, hpend⟩ := hd'
    · obtain rfl := honly d hd heq
      exact ⟨d, mem_pendingToolCalls.2 ⟨hd, hpending hpend⟩, hid.symm⟩
    · exact ⟨d', mem_pendingToolCalls.2 ⟨hd, hpend⟩, rfl⟩

theorem Moves.modifyFirst_all (hdistinct : DistinctCalls output) (hid : ∀ c, (f c).callId = c.callId)
    (happroved : ∀ c, (f c).approved = c.approved)
    (hp : ∀ c, p c = true → isPending (ToolApproval.results output) c = true) :
    Moves output (ToolApproval.modifyFirst p f output) [] := by
  cases hfind : (calls output).find? p with
  | none =>
    rw [modifyFirst_of_none hfind]
    exact Moves.refl output
  | some c =>
    have hpc : p c = true := List.find?_some hfind
    exact Moves.modifyFirst hdistinct hfind (hid c) (by rw [happroved]; exact id) fun _ => hp c hpc

theorem Moves.append {output items : List Item} (hcalls : calls items = []) :
    Moves output (output ++ items) (ToolApproval.results items) where
  ids := by rw [calls_append, hcalls, List.append_nil]
  results id := by rw [results_append, List.mem_append]
  sublist := by rw [results_append]
  approved c hc happroved := ⟨c, by rw [calls_append, hcalls, List.append_nil]; exact hc, rfl, happroved⟩
  pending c hc := by
    rw [mem_pendingToolCalls, calls_append, hcalls, List.append_nil, results_append] at hc
    refine ⟨c, mem_pendingToolCalls.2 ⟨hc.1, ?_⟩, rfl⟩
    have hpend := hc.2
    simp only [isPending, Bool.and_eq_true, decide_eq_true_eq, List.mem_append, not_or] at hpend ⊢
    exact ⟨hpend.1.1, hpend.2⟩

def Closed (output : List Item) (id : String) : Prop :=
  id ∈ results output ∨ ∃ c ∈ calls output, c.callId = id ∧ c.approved = true

theorem Moves.closed (h : Moves output output' added) (hclosed : Closed output id) : Closed output' id := by
  rcases hclosed with hresult | ⟨c, hc, rfl, happroved⟩
  · exact .inl ((h.results id).2 (.inl hresult))
  · obtain ⟨c', hc', hid, happroved'⟩ := h.approved c hc happroved
    exact .inr ⟨c', hc', hid, happroved'⟩

theorem Moves.pending_nil (h : Moves output output' added) (hnil : pendingToolCalls output = []) :
    pendingToolCalls output' = [] := by
  rw [List.eq_nil_iff_forall_not_mem]
  intro c hc
  obtain ⟨d, hd, -⟩ := h.pending c hc
  rw [hnil] at hd
  cases hd

def Ready (output : List Item) : Prop :=
  pendingToolCalls output ≠ [] →
    ∃ c ∈ pendingToolCalls output, c.status = .pending ∨ c.approved = true ∨ c.status = .inProgress

theorem ready_congr (h : pendingToolCalls output' = pendingToolCalls output) (hready : Ready output) :
    Ready output' := by
  unfold Ready
  rw [h]
  exact hready

theorem mem_pending_modifyFirst (hdistinct : DistinctCalls output) {c : Call} (hfind : (calls output).find? p = some c)
    (hpending : isPending (results output) (f c) = true) :
    f c ∈ pendingToolCalls (modifyFirst p f output) := by
  rw [mem_pendingToolCalls, results_modifyFirst, calls_modifyFirst hdistinct hfind, mem_mapCall]
  exact ⟨⟨c, List.mem_of_find?_eq_some hfind, .inl ⟨rfl, rfl⟩⟩, hpending⟩

theorem isPending_setStatus {resolved : List String} (h : isPending resolved c = true) {status : CallStatus}
    (hstatus : status.awaits = true ∨ status = .inProgress) :
    isPending resolved (setStatus status c) = true := by
  simp only [isPending, Bool.and_eq_true, decide_eq_true_eq, Bool.or_eq_true] at h ⊢
  exact ⟨h.1, hstatus⟩

theorem not_mem_results_of_isPending {resolved : List String} (h : isPending resolved c = true) :
    c.callId ∉ resolved := by
  simp only [isPending, Bool.and_eq_true, decide_eq_true_eq] at h
  exact h.1

theorem ready_setPending (hdistinct : DistinctCalls output) (hp : ∀ c, p c = true → isPending (results output) c = true)
    (hnone : ∀ c ∈ calls output, isPending (results output) c = true → p c = false → c.approved = true) :
    Ready (modifyFirst p (setStatus .pending) output) := by
  intro hne
  cases hfind : (calls output).find? p with
  | none =>
    rw [modifyFirst_of_none hfind] at hne ⊢
    obtain ⟨c, hc⟩ := List.exists_mem_of_ne_nil _ hne
    have hc' := mem_pendingToolCalls.1 hc
    have hpc : p c = false := by simpa using List.find?_eq_none.1 hfind c hc'.1
    exact ⟨c, hc, .inr (.inl (hnone c hc'.1 hc'.2 hpc))⟩
  | some c =>
    have hc : isPending (results output) c = true := hp c (List.find?_some hfind)
    have hc' : isPending (results output) (setStatus .pending c) = true := isPending_setStatus hc (.inl rfl)
    exact ⟨setStatus .pending c, mem_pending_modifyFirst hdistinct hfind hc', .inl rfl⟩

theorem pending_setPending_ne_nil (hdistinct : DistinctCalls output)
    (hp : ∀ c, p c = true → isPending (results output) c = true) (hne : pendingToolCalls output ≠ []) :
    pendingToolCalls (modifyFirst p (setStatus .pending) output) ≠ [] := by
  cases hfind : (calls output).find? p with
  | none =>
    rw [modifyFirst_of_none hfind]
    exact hne
  | some c =>
    have hc : isPending (results output) (setStatus .pending c) = true :=
      isPending_setStatus (hp c (List.find?_some hfind)) (.inl rfl)
    exact List.ne_nil_of_mem (mem_pending_modifyFirst hdistinct hfind hc)

/-! ## Transactions and what they report -/

inductive Effect where
  | resolved (id : String)
  | output (id : String)
  | continued
  deriving DecidableEq

def Effect.callId : Effect → Option String
  | .resolved id => some id
  | .output id => some id
  | .continued => none

def Effect.outputId : Effect → Option String
  | .output id => some id
  | _ => none

def outputIds (log : List Effect) : List String := log.filterMap Effect.outputId

def effects (id : String) (resolved output continued : Bool) : List Effect :=
  (if resolved then [.resolved id] else []) ++ (if output then [.output id] else []) ++
    if continued then [.continued] else []

structure World where
  saved : Saved
  log : List Effect

inductive Op where
  | resolve (accessible own : Bool) (form : ResolveToolCallForm)
  | run (full : Bool)
  | complete (call : Call) (status : CallStatus) (content : Json)

/-- A failed transaction changes nothing; the model goes on after a request, or where the runner
finds nothing pending. -/
def step (world : World) : Op → Option World
  | .resolve accessible own form =>
    match resolveToolCallOutput accessible own form (some world.saved) with
    | .error _ => some world
    | .ok (saved, resume) =>
      some ⟨saved, world.log ++
        effects form.callId true (decide (form.action ≠ .approve)) (decide (resume = some .model))⟩
  | .run full => some { world with saved := (startToolCall full world.saved).1 }
  | .complete call status content =>
    match completeToolCall call status content (some world.saved) with
    | .error _ => some world
    | .ok (saved, output) =>
      some ⟨saved, world.log ++
        effects call.callId false true (decide (status ≠ .incomplete) && (pendingToolCalls output).isEmpty)⟩

def Op.Regular : Op → Prop
  | .complete _ status _ => status ≠ .incomplete
  | _ => True

/-- One transaction, with what it reports of the call `id`. -/
structure Transition (output output' : List Item) (id : String) (resolved received continued : Bool) : Prop where
  moves : Moves output output' (if received then [id] else [])
  received : received = true → id ∉ results output
  resolved : resolved = true → ¬ Closed output id ∧ Closed output' id
  continued : continued = true → pendingToolCalls output ≠ [] ∧ pendingToolCalls output' = []
  ready : Ready output'

theorem Transition.normalize (hdistinct : DistinctCalls output)
    (h : Transition output output' id resolved received continued) :
    Transition output (normalizeToolOutput output') id resolved received continued := by
  have hdistinct' : DistinctCalls output' := h.moves.distinct hdistinct
  have hmoves := h.moves.trans (Moves.normalize hdistinct')
  rw [List.append_nil] at hmoves
  refine ⟨hmoves, h.received, ?_, ?_, ready_congr (pending_normalize hdistinct') h.ready⟩
  · intro hresolved
    obtain ⟨hopen, hclosed⟩ := h.resolved hresolved
    exact ⟨hopen, (Moves.normalize hdistinct').closed hclosed⟩
  · intro hcontinued
    rw [pending_normalize hdistinct']
    exact h.continued hcontinued

theorem transition_run {full : Bool} {saved : Saved} (hdistinct : DistinctCalls saved.output) (id : String) :
    Transition saved.output (startToolCall full saved).1.output id false false false := by
  unfold startToolCall
  dsimp only
  split
  · rename_i hrunning
    apply Transition.normalize hdistinct
    refine ⟨Moves.refl _, nofun, nofun, nofun, ?_⟩
    intro _
    obtain ⟨c, hc, hstatus⟩ := List.any_eq_true.1 hrunning
    exact ⟨c, hc, .inr (.inr (of_decide_eq_true hstatus))⟩
  split
  · apply Transition.normalize hdistinct
    refine ⟨?_, nofun, nofun, nofun, ?_⟩
    · exact Moves.modifyFirst_all hdistinct (fun _ => rfl) (fun _ => rfl) fun _ hc => hc
    · apply ready_setPending hdistinct (fun _ hc => hc)
      intro c _ hpending hnot
      rw [hpending] at hnot
      cases hnot
  · rename_i c hfind
    have hrunnable : isRunnable full (results saved.output) c = true := List.find?_some hfind
    have hpending : isPending (results saved.output) c = true := by
      simp only [isRunnable, Bool.and_eq_true] at hrunnable
      exact hrunnable.1.1
    have hrunning : isPending (results saved.output) (setStatus .inProgress c) = true :=
      isPending_setStatus hpending (.inr rfl)
    apply Transition.normalize hdistinct
    refine ⟨?_, nofun, nofun, nofun, ?_⟩
    · exact Moves.modifyFirst hdistinct hfind rfl (fun happroved => happroved) fun _ => hpending
    · intro _
      exact ⟨_, mem_pending_modifyFirst hdistinct hfind hrunning, .inr (.inr rfl)⟩

theorem resolve_ok (h : resolveToolCallOutput accessible own form (some saved) = .ok (saved', resume)) :
    ∃ call output, (calls saved.output).find? (fun c => decide (c.callId = form.callId)) = some call ∧
      form.callId ∉ results saved.output ∧ call.status.awaits = true ∧ call.approved = false ∧
      applyAction form call saved.output = .ok output ∧
      saved' = save ⟨(resumeBatch form.action (isActive saved.output) output).1, false⟩ ∧
      resume = (resumeBatch form.action (isActive saved.output) output).2 := by
  unfold resolveToolCallOutput at h
  split at h
  · cases h
  dsimp only at h
  split at h
  · cases h
  split at h
  · cases h
  rename_i call hfind
  split at h
  · cases h
  rename_i hopen
  simp only [not_or, Bool.not_eq_false, Bool.not_eq_true] at hopen
  split at h
  · cases h
  · rename_i output happly
    injection h with h
    injection h with hsaved hresume
    exact ⟨call, output, hfind, hopen.1, hopen.2.1, hopen.2.2, happly, hsaved.symm, hresume.symm⟩

theorem applyAction_ok (h : applyAction form call output = .ok output') :
    (form.action = .approve ∧ output' = modifyFirst (fun c => decide (c.callId = form.callId))
      (fun c => { c with status := .queued, approved := true }) output) ∨
    (form.action ≠ .approve ∧ ∃ status content, (status = .rejected ∨ status = .completed) ∧
      output' = modifyFirst (fun c => decide (c.callId = form.callId)) (setStatus status) output ++
        [.result ⟨form.callId, status, content⟩]) := by
  unfold applyAction at h
  cases haction : form.action with
  | approve =>
    simp only [haction] at h
    split at h
    · cases h
    · injection h with h
      exact .inl ⟨rfl, h.symm⟩
  | reject =>
    simp only [haction] at h
    injection h with h
    exact .inr ⟨nofun, .rejected, _, .inl rfl, h.symm⟩
  | answer =>
    simp only [haction] at h
    split at h
    · cases h
    · split at h
      · cases h
      · injection h with h
        exact .inr ⟨nofun, .completed, _, .inr rfl, h.symm⟩

theorem pending_append {output items : List Item} (hcalls : calls items = []) (hresults : results items = []) :
    pendingToolCalls (output ++ items) = pendingToolCalls output := by
  unfold pendingToolCalls
  rw [calls_append, results_append, hcalls, hresults, List.append_nil, List.append_nil]

/-- The model goes on once nothing is pending, else `next` picks the waiting call. -/
theorem transition_next {output output' : List Item} {id : String} {resolved : Bool} {next : Call → Bool}
    (hdistinct : DistinctCalls output) (hmoves : Moves output output' [id]) (hid : id ∉ results output)
    (hresolved : resolved = true → ¬ Closed output id) (hsome : pendingToolCalls output ≠ [])
    (hnext : ∀ c, next c = true → isPending (results output') c = true)
    (hrest : ∀ c ∈ calls output', isPending (results output') c = true → next c = false → c.approved = true) :
    Transition output
      (if (pendingToolCalls output').isEmpty then output' ++ [.continuation]
        else modifyFirst next (setStatus .pending) output')
      id resolved true (pendingToolCalls output').isEmpty := by
  have hclosed : Closed output' id := .inl ((hmoves.results id).2 (.inr (List.mem_singleton.2 rfl)))
  have hdistinct' : DistinctCalls output' := hmoves.distinct hdistinct
  split
  · rename_i hempty
    have hpending := @pending_append output' [.continuation] rfl rfl
    have hnil : pendingToolCalls output' = [] := List.isEmpty_iff.1 hempty
    have happend : Moves output' (output' ++ [.continuation]) [] := Moves.append rfl
    refine ⟨hmoves.trans happend, fun _ => hid, ?_, ?_, ?_⟩
    · intro h
      exact ⟨hresolved h, happend.closed hclosed⟩
    · intro _
      exact ⟨hsome, hpending.trans hnil⟩
    · intro hne
      exact absurd (hpending.trans hnil) hne
  · rename_i hempty
    have hmodify : Moves output' (modifyFirst next (setStatus .pending) output') [] :=
      Moves.modifyFirst_all hdistinct' (fun _ => rfl) (fun _ => rfl) hnext
    refine ⟨hmoves.trans hmodify, fun _ => hid, ?_, ?_, ready_setPending hdistinct' hnext hrest⟩
    · intro h
      exact ⟨hresolved h, hmodify.closed hclosed⟩
    · intro h
      exact absurd h hempty

theorem ready_of_active (hdistinct : DistinctCalls output) (hfind : (calls output).find? p = some call)
    (hwaits : call.status.awaits = true) (hopen : call.approved = false) (hactive : isActive output = true)
    (f : Call → Call) (status : CallStatus) (content : Json) :
    Ready (modifyFirst p f output ++ [.result ⟨call.callId, status, content⟩]) := by
  intro _
  obtain ⟨c, hc, hrun⟩ := List.any_eq_true.1 hactive
  obtain ⟨hmem, hpending⟩ := mem_pendingToolCalls.1 hc
  simp only [Bool.or_eq_true, decide_eq_true_eq] at hrun
  have hne : c.callId ≠ call.callId := by
    intro heq
    obtain rfl := eq_of_callId hdistinct hmem (List.mem_of_find?_eq_some hfind) heq
    rcases hrun with happroved | hstatus
    · rw [hopen] at happroved
      cases happroved
    · rw [hstatus] at hwaits
      cases hwaits
  refine ⟨c, ?_, .inr hrun⟩
  rw [mem_pendingToolCalls, calls_append, results_append, results_modifyFirst, calls_modifyFirst hdistinct hfind]
  refine ⟨List.mem_append_left _ (mem_mapCall.2 ⟨c, hmem, .inr ⟨hne, rfl⟩⟩), ?_⟩
  simp only [isPending, Bool.and_eq_true, decide_eq_true_eq, List.mem_append, not_or] at hpending ⊢
  exact ⟨⟨hpending.1, fun h => hne (List.mem_singleton.1 h)⟩, hpending.2⟩

theorem resumeBatch_inactive (haction : action ≠ .approve) (output : List Item) : resumeBatch action false output =
      if (pendingToolCalls output).isEmpty then (output ++ [.continuation], some .model)
      else (modifyFirst (isPending (results output)) (setStatus .pending) output, none) := by
  rw [resumeBatch, if_neg nofun, if_neg haction]

theorem transition_resolve {accessible own : Bool} {resume : Option Resume} (hdistinct : DistinctCalls saved.output)
    (h : resolveToolCallOutput accessible own form (some saved) = .ok (saved', resume)) :
    Transition saved.output saved'.output form.callId true (decide (form.action ≠ .approve))
      (decide (resume = some .model)) := by
  obtain ⟨call, output, hfind, hid, hwaits, hopen, happly, rfl, rfl⟩ := resolve_ok h
  have hcall : call.callId = form.callId := by simpa using List.find?_some hfind
  have hmem : call ∈ calls saved.output := List.mem_of_find?_eq_some hfind
  have hpending : isPending (results saved.output) call = true := by
    simp only [isPending, hwaits, hcall, hid, not_false_eq_true, decide_true, Bool.true_or, Bool.and_self]
  have hsome : pendingToolCalls saved.output ≠ [] := List.ne_nil_of_mem (mem_pendingToolCalls.2 ⟨hmem, hpending⟩)
  have hnotclosed : ¬ Closed saved.output form.callId := by
    rintro (hresult | ⟨c, hc, heq, happroved⟩)
    · exact hid hresult
    · obtain rfl := eq_of_callId hdistinct hc hmem (heq.trans hcall.symm)
      rw [hopen] at happroved
      cases happroved
  apply Transition.normalize hdistinct
  rcases applyAction_ok happly with ⟨haction, rfl⟩ | ⟨haction, status, content, hstatus, rfl⟩
  · -- an approval keeps the call pending, approved
    have hqueued : isPending (results saved.output) { call with status := .queued, approved := true } = true := by
      simp only [isPending, hcall, hid, not_false_eq_true, decide_true, CallStatus.awaits, Bool.true_or, Bool.and_self]
    have hmem' := @mem_pending_modifyFirst _ (fun c => { c with status := .queued, approved := true }) _ hdistinct
      call hfind hqueued
    have hresume : ∀ active output, (resumeBatch .approve active output).1 = output ∧
        (resumeBatch .approve active output).2 ≠ some .model := by
      intro active output
      cases active <;> exact ⟨rfl, by simp [resumeBatch]⟩
    rw [haction, (hresume _ _).1, decide_eq_false (hresume _ _).2]
    refine ⟨?_, by simp, ?_, by simp, ?_⟩
    · exact Moves.modifyFirst hdistinct hfind rfl (fun _ => rfl) fun _ => hpending
    · intro _
      exact ⟨hnotclosed, .inr ⟨_, (mem_pendingToolCalls.1 hmem').1, hcall, rfl⟩⟩
    · intro _
      exact ⟨_, hmem', .inr (.inl rfl)⟩
  · have hmodify : Moves saved.output (modifyFirst (fun c => decide (c.callId = form.callId)) (setStatus status)
        saved.output) [] :=
      Moves.modifyFirst hdistinct hfind rfl (fun happroved => happroved) fun _ => hpending
    have happend := @Moves.append (modifyFirst (fun c => decide (c.callId = form.callId)) (setStatus status)
      saved.output) [.result ⟨form.callId, status, content⟩] rfl
    have hmoves := hmodify.trans happend
    rw [decide_eq_true haction]
    cases hactive : isActive saved.output with
    | true =>
      refine ⟨hmoves, fun _ => hid, ?_, by simp [resumeBatch], ?_⟩
      · intro _
        exact ⟨hnotclosed, .inl ((hmoves.results _).2 (.inr (List.mem_singleton.2 rfl)))⟩
      · rw [← hcall]
        exact ready_of_active hdistinct (hcall ▸ hfind) hwaits hopen hactive _ _ _
    | false =>
      have hnext := @transition_next _ _ _ true _ hdistinct hmoves hid (fun _ => hnotclosed) hsome
        (fun _ hc => hc) (fun c _ hc hnot => by rw [hc] at hnot; cases hnot)
      rw [resumeBatch_inactive haction]
      cases hempty : (pendingToolCalls (modifyFirst (fun c => decide (c.callId = form.callId))
          (setStatus status) saved.output ++ [.result ⟨form.callId, status, content⟩])).isEmpty with
      | true => simpa [hempty] using hnext
      | false => simpa [hempty] using hnext

theorem transition_complete {status : CallStatus} {content : Json} (hdistinct : DistinctCalls saved.output)
    (hstatus : status ≠ .incomplete) (h : completeToolCall call status content (some saved) = .ok (saved', output)) :
    Transition saved.output saved'.output call.callId false true
      (decide (status ≠ .incomplete) && (pendingToolCalls output).isEmpty) := by
  unfold completeToolCall at h
  dsimp only at h
  split at h
  · cases h
  rename_i running hfind
  have hrunning := List.find?_some hfind
  simp only [Bool.and_eq_true, decide_eq_true_eq] at hrunning
  obtain ⟨hpending, hid⟩ := hrunning
  have hresults : call.callId ∉ results saved.output := by
    rw [← hid]
    exact not_mem_results_of_isPending hpending
  have hsome : pendingToolCalls saved.output ≠ [] :=
    List.ne_nil_of_mem (mem_pendingToolCalls.2 ⟨List.mem_of_find?_eq_some hfind, hpending⟩)
  have hmodify := @Moves.modifyFirst _ (fun c => { call with approved := call.approved || c.approved }) _
    hdistinct _ hfind hid.symm (fun happroved => by simp [happroved]) fun _ => hpending
  split at h
  · cases h
  revert h hmodify
  generalize modifyFirst _ _ saved.output = replaced
  intro hmodify h
  have hmoves := hmodify.trans (@Moves.append replaced [.result ⟨call.callId, status, content⟩] rfl)
  revert h hmoves
  generalize replaced ++ [.result ⟨call.callId, status, content⟩] = stored
  intro h hmoves
  have hnext := @transition_next _ _ _ false (fun c => isPending (results stored) c && !c.approved) hdistinct
    hmoves hresults nofun hsome (fun c hc => (Bool.and_eq_true_iff.1 hc).1)
    (fun c _ hc hnot => by simpa [hc] using hnot)
  split at h
  · rename_i hempty
    injection h with h
    injection h with hsaved houtput
    subst hsaved houtput
    rw [if_pos hempty, hempty] at hnext
    rw [decide_eq_true hstatus, pending_append rfl rfl, hempty]
    exact hnext.normalize hdistinct
  · rename_i hempty
    injection h with h
    injection h with hsaved houtput
    subst hsaved houtput
    have hleft := @pending_setPending_ne_nil (fun c => isPending (results stored) c && !c.approved) _
      (hmoves.distinct hdistinct) (fun c hc => (Bool.and_eq_true_iff.1 hc).1) (fun hnil => hempty (List.isEmpty_iff.2 hnil))
    rw [if_neg hempty, Bool.eq_false_iff.2 hempty] at hnext
    rw [List.isEmpty_eq_false_iff.2 hleft, Bool.and_false]
    exact hnext.normalize hdistinct

/-! ## Every interleaving -/

theorem outputIds_effects (id : String) (resolved received continued : Bool) :
    outputIds (effects id resolved received continued) = if received then [id] else [] := by
  cases resolved <;> cases received <;> cases continued <;> rfl

theorem mem_effects (h : e ∈ effects id resolved received continued) :
    (e = .resolved id ∧ resolved = true) ∨ (e = .output id ∧ received = true) ∨
      (e = .continued ∧ continued = true) := by
  cases resolved <;> cases received <;> cases continued <;> simp_all [effects]

theorem count_continued_effects (id : String) (resolved received continued : Bool) :
    (effects id resolved received continued).count .continued = if continued then 1 else 0 := by
  cases resolved <;> cases received <;> cases continued <;> simp [effects]

def OnlyFirst (e e' : Effect) : Prop := ∀ id, e' = .resolved id → e.callId ≠ some id

theorem pairwise_effects (id : String) (resolved received continued : Bool) :
    (effects id resolved received continued).Pairwise OnlyFirst := by
  cases resolved <;> cases received <;> cases continued <;> simp [effects, OnlyFirst]

/-- What holds of the message and the log in a run from `start`. -/
structure Inv (start : Saved) (world : World) : Prop where
  moves : Moves start.output world.saved.output (outputIds world.log)
  outputs : (outputIds world.log).Nodup ∧ ∀ id ∈ outputIds world.log, id ∉ results start.output
  closed : ∀ e ∈ world.log, ∀ id, e.callId = some id → Closed world.saved.output id
  fresh : ∀ id, Closed start.output id → .resolved id ∉ world.log
  once : world.log.Pairwise OnlyFirst
  continued : world.log.count .continued ≤ 1
  finished : .continued ∈ world.log → pendingToolCalls world.saved.output = []
  ready : Ready world.saved.output

theorem inv_start (hready : Ready start.output) : Inv start ⟨start, []⟩ where
  moves := Moves.refl _
  outputs := ⟨List.nodup_nil, nofun⟩
  closed := nofun
  fresh := nofun
  once := List.Pairwise.nil
  continued := Nat.zero_le _
  finished := nofun
  ready := hready

theorem Inv.transition (hinv : Inv start world)
    (h : Transition world.saved.output saved'.output id resolved received continued) :
    Inv start ⟨saved', world.log ++ effects id resolved received continued⟩ := by
  have hlog : outputIds (world.log ++ effects id resolved received continued) =
      outputIds world.log ++ if received then [id] else [] := by
    rw [← outputIds_effects id resolved received continued]
    exact List.filterMap_append
  have hnew : received = true → id ∉ outputIds world.log ∧ id ∉ results start.output := by
    intro hreceived
    have hid := h.received hreceived
    rw [hinv.moves.results, not_or] at hid
    exact hid.symm
  refine ⟨?_, ?_, ?_, ?_, ?_, ?_, ?_, h.ready⟩
  · rw [hlog]
    exact hinv.moves.trans h.moves
  · rw [hlog]
    cases received with
    | false => simpa using hinv.outputs
    | true =>
      obtain ⟨hlogged, hstart⟩ := hnew rfl
      refine ⟨?_, ?_⟩
      · exact List.nodup_append.2 ⟨hinv.outputs.1, List.nodup_singleton id, by
          rintro a ha b hb rfl
          obtain rfl : a = id := List.mem_singleton.1 hb
          exact hlogged ha⟩
      · intro id' hid'
        rcases List.mem_append.1 hid' with hid' | hid'
        · exact hinv.outputs.2 id' hid'
        · obtain rfl : id' = id := List.mem_singleton.1 hid'
          exact hstart
  · intro e he id' hid'
    rcases List.mem_append.1 he with he | he
    · exact h.moves.closed (hinv.closed e he id' hid')
    rcases mem_effects he with ⟨rfl, hresolved⟩ | ⟨rfl, hreceived⟩ | ⟨rfl, -⟩
    · cases hid'
      exact (h.resolved hresolved).2
    · cases hid'
      exact .inl ((h.moves.results id).2 (.inr (by simp [hreceived])))
    · cases hid'
  · intro id' hclosed hmem
    rcases List.mem_append.1 hmem with hmem | hmem
    · exact hinv.fresh id' hclosed hmem
    rcases mem_effects hmem with ⟨heq, hresolved⟩ | ⟨heq, -⟩ | ⟨heq, -⟩
    · obtain rfl : id' = id := by
        injection heq
      exact (h.resolved hresolved).1 (hinv.moves.closed hclosed)
    · cases heq
    · cases heq
  · -- a call in the log is closed, and only an open one is resolved
    refine List.pairwise_append.2 ⟨hinv.once, pairwise_effects _ _ _ _, ?_⟩
    intro e he e' he' id' heq hid'
    subst heq
    rcases mem_effects he' with ⟨heq, hresolved⟩ | ⟨heq, -⟩ | ⟨heq, -⟩
    · obtain rfl : id' = id := by
        injection heq
      exact (h.resolved hresolved).1 (hinv.closed e he id' hid')
    · cases heq
    · cases heq
  · rw [List.count_append, count_continued_effects]
    cases continued with
    | false => simpa using hinv.continued
    | true =>
      -- a call was pending before, so the model was not started yet
      have hnone : Effect.continued ∉ world.log := fun hmem => (h.continued rfl).1 (hinv.finished hmem)
      rw [List.count_eq_zero.2 hnone]
      exact Nat.le_refl _
  · intro hmem
    rcases List.mem_append.1 hmem with hmem | hmem
    · exact h.moves.pending_nil (hinv.finished hmem)
    · rcases mem_effects hmem with ⟨heq, -⟩ | ⟨heq, -⟩ | ⟨-, hcontinued⟩
      · cases heq
      · cases heq
      · exact (h.continued hcontinued).2

theorem inv_step (hdistinct : DistinctCalls start.output) (hinv : Inv start world)
    (hop : op.Regular) (h : step world op = some world') : Inv start world' := by
  have hdistinct' : DistinctCalls world.saved.output := hinv.moves.distinct hdistinct
  cases op with
  | resolve accessible own form =>
    simp only [step] at h
    split at h
    · cases h
      exact hinv
    · rename_i saved resume hok
      cases h
      exact hinv.transition (transition_resolve hdistinct' hok)
  | run full =>
    cases h
    have hrun := hinv.transition (@transition_run full _ hdistinct' "")
    have hnone : effects "" false false false = [] := rfl
    rw [hnone, List.append_nil] at hrun
    exact hrun
  | complete call status content =>
    simp only [step] at h
    split at h
    · cases h
      exact hinv
    · rename_i saved output hok
      cases h
      exact hinv.transition (transition_complete hdistinct' hop hok)

/-- At most one result and one resolution for a call, one continuation, with nothing pending; and
among pending calls one can go on. -/
theorem approval_protocol {start : Saved} (hdistinct : DistinctCalls start.output)
    (hpending : pendingToolCalls start.output ≠ [] → ∃ c ∈ pendingToolCalls start.output, c.status = .pending)
    {ops : List Op} {world : World}
    (hrun : Machine.Run step (fun _ op => op.Regular) ⟨start, []⟩ ops world) :
    ((outputIds world.log).Nodup ∧ (∀ id ∈ outputIds world.log, id ∉ results start.output) ∧
      ∀ id, (results world.saved.output).count id ≤ max 1 ((results start.output).count id)) ∧
    ((∀ id, Closed start.output id → .resolved id ∉ world.log) ∧ world.log.Pairwise OnlyFirst) ∧
    (world.log.count .continued ≤ 1 ∧ (.continued ∈ world.log → pendingToolCalls world.saved.output = [])) ∧
    (pendingToolCalls world.saved.output ≠ [] → ∃ c ∈ pendingToolCalls world.saved.output,
      c.status = .pending ∨ c.approved = true ∨ c.status = .inProgress) := by
  have hready : Ready start.output := by
    intro hne
    obtain ⟨c, hc, hstatus⟩ := hpending hne
    exact ⟨c, hc, .inl hstatus⟩
  have hinv : Inv start world :=
    hrun.invariant (fun _ _ _ hinv hop h => inv_step hdistinct hinv hop h) (inv_start hready)
  refine ⟨⟨hinv.outputs.1, hinv.outputs.2, ?_⟩, ⟨hinv.fresh, hinv.once⟩,
    ⟨hinv.continued, hinv.finished⟩, hinv.ready⟩
  intro id
  have hcount : (results world.saved.output).count id ≤
      (results start.output).count id + (outputIds world.log).count id := by
    rw [← List.count_append]
    exact hinv.moves.sublist.count_le id
  by_cases hmem : id ∈ outputIds world.log
  · have hzero : (results start.output).count id = 0 := List.count_eq_zero.2 (hinv.outputs.2 id hmem)
    have hone : (outputIds world.log).count id ≤ 1 := List.nodup_iff_count_le_one.1 hinv.outputs.1 id
    omega
  · have hzero : (outputIds world.log).count id = 0 := List.count_eq_zero.2 hmem
    omega

def twoCalls : Saved := ⟨[.call ⟨"a", "search", .pending, false⟩, .call ⟨"b", "ask_user", .queued, false⟩], false⟩

def twoCallsOps : List Op :=
  [.resolve true true ⟨"a", .approve, none, false⟩, .run false,
    .complete ⟨"a", "search", .completed, true⟩ .completed (.str "found"),
    .resolve true true ⟨"b", .answer, some (.str "yes"), false⟩]

def twoCallsEnd : World :=
  ⟨⟨[.call ⟨"a", "search", .completed, true⟩, .call ⟨"b", "ask_user", .completed, false⟩,
      .result ⟨"a", .completed, .str "found"⟩,
      .result ⟨"b", .completed, .obj [("status", .str "answered"), ("answers", .str "yes")]⟩,
      .continuation], false⟩,
    [.resolved "a", .output "a", .resolved "b", .output "b", .continued]⟩

theorem twoCalls_run : Machine.Run step (fun _ op => op.Regular) ⟨twoCalls, []⟩ twoCallsOps twoCallsEnd :=
  .cons trivial rfl (.cons trivial rfl (.cons nofun rfl (.cons trivial rfl (.nil _))))

theorem approval_protocol_sample :
    twoCallsEnd.log = [.resolved "a", .output "a", .resolved "b", .output "b", .continued] ∧
      (outputIds twoCallsEnd.log).Nodup ∧ twoCallsEnd.log.Pairwise OnlyFirst ∧
      twoCallsEnd.log.count .continued ≤ 1 ∧ pendingToolCalls twoCallsEnd.saved.output = [] := by
  have hdistinct : DistinctCalls twoCalls.output := by decide
  obtain ⟨⟨houtputs, -, -⟩, ⟨-, honce⟩, ⟨hcontinued, hfinished⟩, -⟩ :=
    approval_protocol hdistinct (fun _ => ⟨_, List.mem_cons_self, rfl⟩) twoCalls_run
  exact ⟨rfl, houtputs, honce, hcontinued, hfinished (by decide)⟩

end RyanAI.Chat.ToolApproval
