import Mathlib.Tactic

/-!
# A fair lock of an event loop

A flag and a queue of waiters, one future for each task that waits. `release` clears the flag and sets the result of the
first future only; the task that is woken takes the lock when it runs next, unless it has been cancelled by then, and a
cancelled waiter that leaves the queue wakes the next one. In between the flag is down although the lock is promised:
`Lock.Fair` says that only the head of the queue can be woken, and only while the flag is down.
-/

namespace RyanAI.Lib.AsyncLock

universe u

inductive Future
  | pending
  | result
  | cancelled
  deriving DecidableEq, Repr

/-- A task in the queue; `mustCancel` comes after its future is done. -/
structure Waiter (τ : Type u) where
  task : τ
  future : Future
  mustCancel : Bool
  deriving DecidableEq, Repr

def Waiter.doomed {τ : Type u} (w : Waiter τ) : Bool := w.future == .cancelled || w.mustCancel

def Waiter.cancel {τ : Type u} (w : Waiter τ) : Waiter τ :=
  match w.future with
  | .pending => { w with future := .cancelled }
  | _ => { w with mustCancel := true }

structure Lock (τ : Type u) where
  locked : Bool
  waiters : List (Waiter τ)
  deriving DecidableEq, Repr

namespace Lock

variable {τ : Type u}

def free : Lock τ := ⟨false, []⟩

def wakeUpFirst (l : Lock τ) : Lock τ :=
  match l.waiters with
  | [] => l
  | w :: ws => if w.future = .pending then ⟨l.locked, { w with future := .result } :: ws⟩ else l

/-- It takes a free lock whose waiters are cancelled, and else joins the queue. -/
def acquire (l : Lock τ) (t : τ) : Lock τ × Bool :=
  if l.locked = false ∧ (l.waiters.all fun w => w.future == .cancelled) = true then
    (⟨true, l.waiters⟩, true)
  else (⟨l.locked, l.waiters ++ [⟨t, .pending, false⟩]⟩, false)

/-- `none` is the error of a release without an acquisition. -/
def release (l : Lock τ) : Option (Lock τ) := if l.locked then some (wakeUpFirst ⟨false, l.waiters⟩) else none

variable [DecidableEq τ]

def cancel (l : Lock τ) (t : τ) : Lock τ := ⟨l.locked, l.waiters.map fun w => if w.task = t then w.cancel else w⟩

/-- It leaves the queue, and takes the lock or, cancelled, wakes the next waiter. -/
def resume (l : Lock τ) (t : τ) : Option (Lock τ × Bool) :=
  match l.waiters.find? fun w => w.task = t with
  | none => none
  | some w =>
    let rest := l.waiters.eraseP fun w => w.task = t
    if w.future = .pending then none
    else if w.doomed then
      some (if l.locked then ⟨l.locked, rest⟩ else wakeUpFirst ⟨l.locked, rest⟩, false)
    else some (⟨true, rest⟩, true)

structure Fair (l : Lock τ) : Prop where
  tail : ∀ w ∈ l.waiters.tail, w.future ≠ .result
  locked : l.locked = true → ∀ w ∈ l.waiters, w.future ≠ .result

def Doomed (l : Lock τ) (t : τ) : Prop := ∀ w ∈ l.waiters, w.task = t → w.doomed = true

omit [DecidableEq τ] in
@[simp]
theorem wakeUpFirst_locked (l : Lock τ) : l.wakeUpFirst.locked = l.locked := by
  unfold wakeUpFirst
  split
  · rfl
  · split <;> rfl

omit [DecidableEq τ] in
theorem fair_free : (free : Lock τ).Fair := ⟨by simp [free], by simp [free]⟩

omit [DecidableEq τ] in
theorem Fair.wakeUpFirst {ws : List (Waiter τ)} (h : ∀ w ∈ ws.tail, w.future ≠ .result) :
    (Lock.wakeUpFirst ⟨false, ws⟩).Fair := by
  cases ws with
  | nil => exact ⟨by simp [Lock.wakeUpFirst], by simp [Lock.wakeUpFirst]⟩
  | cons w ws =>
    unfold Lock.wakeUpFirst
    dsimp only
    split <;> exact ⟨h, fun hl => by cases hl⟩

omit [DecidableEq τ] in
theorem Doomed.wakeUpFirst {l : Lock τ} {t : τ} (h : l.Doomed t) : l.wakeUpFirst.Doomed t := by
  unfold Lock.wakeUpFirst
  split
  · exact h
  rename_i w ws hws
  split
  · rename_i hpending
    intro v hv hvt
    rcases List.mem_cons.1 hv with rfl | hv
    · have hw : w.doomed = true := h w (by simp [hws]) hvt
      simpa [Waiter.doomed, hpending] using hw
    · exact h v (by simp [hws, hv]) hvt
  · exact h

structure Turn (l : Lock τ) (t : τ) (l' : Lock τ) (took : Bool) : Prop where
  fair : l'.Fair
  taken : took = true → l.locked = false ∧ l'.locked = true
  kept : took = false → l'.locked = l.locked
  doomed : ∀ s, s ≠ t → l.Doomed s → l'.Doomed s

omit [DecidableEq τ] in
theorem acquire_turn {l l' : Lock τ} {t : τ} {took : Bool} (hl : l.Fair)
    (h : l.acquire t = (l', took)) : l.Turn t l' took := by
  unfold acquire at h
  split at h
  · rename_i hfree
    obtain ⟨rfl, rfl⟩ := Prod.mk.inj h
    have hcancelled : ∀ w ∈ l.waiters, w.future ≠ .result := by
      intro w hw hresult
      have := List.all_eq_true.1 hfree.2 w hw
      simp [hresult] at this
    exact ⟨⟨hl.tail, fun _ => hcancelled⟩, fun _ => ⟨hfree.1, rfl⟩, by simp, fun _ _ hs => hs⟩
  obtain ⟨rfl, rfl⟩ := Prod.mk.inj h
  refine ⟨⟨?_, ?_⟩, by simp, fun _ => rfl, ?_⟩
  · intro w hw
    cases hws : l.waiters with
    | nil => simp [hws] at hw
    | cons v vs =>
      simp only [hws, List.cons_append, List.tail_cons, List.mem_append, List.mem_singleton] at hw
      rcases hw with hw | rfl
      · exact hl.tail w (by simp [hws, hw])
      · simp
  · intro hlocked w hw
    rcases List.mem_append.1 hw with hw | hw
    · exact hl.locked hlocked w hw
    · rw [List.mem_singleton.1 hw]
      simp
  · intro s hst hs w hw hws
    rcases List.mem_append.1 hw with hw | hw
    · exact hs w hw hws
    · rw [List.mem_singleton.1 hw] at hws
      exact absurd hws.symm hst

omit [DecidableEq τ] in
theorem release_spec {l : Lock τ} (hl : l.Fair) (hlocked : l.locked = true) :
    ∃ l', l.release = some l' ∧ l'.Fair ∧ l'.locked = false ∧ ∀ s, l.Doomed s → l'.Doomed s := by
  refine ⟨wakeUpFirst ⟨false, l.waiters⟩, by simp [release, hlocked], Fair.wakeUpFirst hl.tail, ?_, ?_⟩
  · simp
  · intro s hs
    exact Doomed.wakeUpFirst (l := ⟨false, l.waiters⟩) hs

omit [DecidableEq τ] in
theorem doomed_cancel (w : Waiter τ) : w.cancel.doomed = true := by
  unfold Waiter.cancel
  split <;> simp [Waiter.doomed]

omit [DecidableEq τ] in
theorem future_cancel {w : Waiter τ} (h : w.future ≠ .result) : w.cancel.future ≠ .result := by
  unfold Waiter.cancel
  split
  · simp
  · exact h

theorem cancel_spec {l : Lock τ} (hl : l.Fair) (t : τ) :
    (l.cancel t).Fair ∧ (l.cancel t).Doomed t ∧ ∀ s, l.Doomed s → (l.cancel t).Doomed s := by
  have hfuture : ∀ ws : List (Waiter τ), (∀ w ∈ ws, w.future ≠ .result) →
      ∀ v ∈ ws.map fun w => if w.task = t then w.cancel else w, v.future ≠ .result := by
    intro ws hws v hv
    obtain ⟨w, hw, rfl⟩ := List.mem_map.1 hv
    split
    · exact future_cancel (hws w hw)
    · exact hws w hw
  have htask : ∀ w : Waiter τ, (if w.task = t then w.cancel else w).task = w.task := by
    intro w
    split
    · unfold Waiter.cancel
      split <;> rfl
    · rfl
  refine ⟨⟨?_, fun hlocked => hfuture _ (hl.locked hlocked)⟩, ?_, ?_⟩
  · intro w hw
    rw [cancel, ← List.map_tail] at hw
    exact hfuture _ hl.tail w hw
  · intro v hv hvt
    obtain ⟨w, -, rfl⟩ := List.mem_map.1 hv
    rw [htask] at hvt
    rw [if_pos hvt]
    exact doomed_cancel w
  · intro s hs v hv hvs
    obtain ⟨w, hw, rfl⟩ := List.mem_map.1 hv
    rw [htask] at hvs
    split
    · exact doomed_cancel w
    · exact hs w hw hvs

theorem not_result_of_erase {l : Lock τ} (hl : l.Fair) {t : τ} :
    ∀ w ∈ (l.waiters.eraseP fun w => w.task = t).tail, w.future ≠ .result := by
  intro w hw
  apply hl.tail
  cases hws : l.waiters with
  | nil => simp [hws] at hw
  | cons v vs =>
    by_cases hv : v.task = t
    · rw [hws, List.eraseP_cons_of_pos (by simpa using hv)] at hw
      exact List.mem_of_mem_tail hw
    · rw [hws, List.eraseP_cons_of_neg (by simpa using hv)] at hw
      exact List.mem_of_mem_eraseP hw

theorem resume_turn {l l' : Lock τ} {t : τ} {took : Bool} (hl : l.Fair) (h : l.resume t = some (l', took)) :
    l.Turn t l' took ∧ (took = true → ¬ l.Doomed t) := by
  unfold resume at h
  split at h
  · cases h
  rename_i w hfind
  have hw : w ∈ l.waiters := List.mem_of_find?_eq_some hfind
  have hwt : w.task = t := by simpa using List.find?_some hfind
  have hdoomed : ∀ (b : Bool) (s : τ), l.Doomed s →
      Doomed ⟨b, l.waiters.eraseP fun w => w.task = t⟩ s :=
    fun b s hs v hv => hs v (List.mem_of_mem_eraseP hv)
  split at h
  · cases h
  rename_i hpending
  split at h
  · cases h
    refine ⟨?_, by simp⟩
    cases hlocked : l.locked with
    | true =>
      refine ⟨⟨not_result_of_erase hl, fun _ v hv => ?_⟩, by simp, by simp [hlocked], ?_⟩
      · exact hl.locked hlocked v (List.mem_of_mem_eraseP hv)
      · exact fun s _ hs => hdoomed true s hs
    | false =>
      refine ⟨Fair.wakeUpFirst (not_result_of_erase hl), by simp, by simp [hlocked], ?_⟩
      exact fun s _ hs => (hdoomed false s hs).wakeUpFirst
  · rename_i hlive
    cases h
    -- A future that is neither pending nor cancelled has its result, so this is the head.
    have hresult : w.future = .result := by
      cases hf : w.future with
      | pending => exact absurd hf hpending
      | result => rfl
      | cancelled => simp [Waiter.doomed, hf] at hlive
    have hfree : l.locked = false := by
      cases hlocked : l.locked with
      | true => exact absurd hresult (hl.locked hlocked w hw)
      | false => rfl
    have hrest : ∀ v ∈ l.waiters.eraseP (fun w => w.task = t), v.future ≠ .result := by
      cases hws : l.waiters with
      | nil => simp
      | cons v vs =>
        have htail : ∀ u ∈ vs, u.future ≠ .result := fun u hu => hl.tail u (by simpa [hws])
        have hv : v.task = t := by
          by_contra hne
          rw [hws, List.find?_cons_of_neg (by simpa using hne)] at hfind
          exact htail w (List.mem_of_find?_eq_some hfind) hresult
        rw [List.eraseP_cons_of_pos (by simpa using hv)]
        exact htail
    refine ⟨⟨⟨fun v hv => hrest v (List.mem_of_mem_tail hv), fun _ => hrest⟩,
      fun _ => ⟨hfree, rfl⟩, by simp, fun s _ hs => hdoomed true s hs⟩, fun _ hd => ?_⟩
    exact absurd (hd w hw hwt) (by simpa using hlive)

end Lock

end RyanAI.Lib.AsyncLock
