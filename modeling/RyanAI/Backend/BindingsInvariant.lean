import RyanAI.Backend.Bindings

/-!
# Binding codes are used once

The invariant over every interleaving of the statements. `Consistent` is the global part: unique keys, no version of a
blocked binding that is enabled, and every code of a committed `bind_with_code` consumed in the committed table. `Held`
is what a call holds of the table of codes: at most an unchanged version of its code until it consumes it; once it has,
no other call can. A call whose `refresh` fails raises after its commit (`refresh_raises_after_commit`).
-/

namespace RyanAI.Backend.Bindings

open RyanAI.Lib
open RyanAI.Lib.Interleaving
open RyanAI.Lib.ReadCommitted

structure SameCommitted (db db' : Db) : Prop where
  bindings : ∀ k, committedAt db'.bindings k = committedAt db.bindings k
  conversations : ∀ k, committedAt db'.conversations k = committedAt db.conversations k
  codes : ∀ k, committedAt db'.codes k = committedAt db.codes k

structure Consistent (db : Db) : Prop where
  bindings_keys : UniqueKeys db.bindings
  conversations_keys : UniqueKeys db.conversations
  codes_keys : UniqueKeys db.codes
  committed_valid : ∀ k b, committedAt db.bindings k = some b → b.Valid
  pending_valid : ∀ k owner b, pendingAt db.bindings k = some (owner, b) → b.Valid
  used_once : (db.bound.map Prod.fst).Nodup
  used_consumed : ∀ h i, (h, i) ∈ db.bound → ∃ c, committedAt db.codes h = some c ∧ c.consumedAt ≠ none

/-- What call `i` holds of the table of codes. -/
def Held (i : ℕ) (code : Option String) (db : Db) : Stage → Prop
  | .working => ∀ h c, pendingAt db.codes h = some (i, c) → code = some h ∧ committedAt db.codes h = some c
  | .consumed bindingId => ∃ h c now, code = some h ∧ HoldsOnly i h (consumed bindingId now c) db.codes ∧
      committedAt db.codes h = some c ∧ c.consumedAt = none
  | .bound bindingId => ∃ h c, code = some h ∧ (h, i) ∈ db.bound ∧ HoldsNone i db.codes ∧
      committedAt db.codes h = some c ∧ c.consumedAt ≠ none ∧ c.consumedByBindingId = some bindingId
  | .ended => HoldsNone i db.codes

theorem SameCommitted.refl (db : Db) : SameCommitted db db := ⟨fun _ => rfl, fun _ => rfl, fun _ => rfl⟩

variable {db db' : Db} {i j : ℕ} {code : Option String} {h : String} {stage' : Stage} {postgres : Bool}
    {c : Conf Db Call} {a : BindArgs}

theorem sameCommitted_rollback (h : Consistent db) (i : ℕ) : SameCommitted db (db.rollback i) :=
  ⟨committedAt_rollback h.bindings_keys i, committedAt_rollback h.conversations_keys i,
    committedAt_rollback h.codes_keys i⟩

theorem sameCommitted_of_work (h : Work i code db db') : SameCommitted db db' := by
  cases h with
  | read => exact .refl db
  | lockCode _ _ _ => exact ⟨fun _ => rfl, fun _ => rfl, committedAt_write i _ _ _⟩
  | write _ _ _ => exact ⟨committedAt_write i _ _ _, fun _ => rfl, fun _ => rfl⟩
  | insert _ hinsert => exact ⟨committedAt_insert hinsert, fun _ => rfl, fun _ => rfl⟩
  | delete hdelete => exact ⟨fun _ => rfl, committedAt_updateWhere hdelete, fun _ => rfl⟩

/-! ## The global part -/

theorem Consistent.work (hdb : Consistent db) (h : Work i code db db') : Consistent db' := by
  have hsame := sameCommitted_of_work h
  cases h with
  | read => exact hdb
  | lockCode hcode hselect hfree =>
    refine { hdb with codes_keys := hdb.codes_keys.write _ _ _, used_consumed := ?_ }
    intro h i hused
    rw [hsame.codes]
    exact hdb.used_consumed h i hused
  | write hselect hfree hvalid =>
    refine { hdb with
      bindings_keys := hdb.bindings_keys.write _ _ _
      committed_valid := ?_
      pending_valid := ?_ }
    · intro k b hb
      rw [hsame.bindings] at hb
      exact hdb.committed_valid k b hb
    intro k owner w hw
    rcases pendingAt_write_cases hw with ⟨-, rfl⟩ | hw
    · -- the old version was the call's own or the committed one
      apply hvalid
      rcases pendingAt_or_committedAt_of_select hselect with hp | hc
      · exact hdb.pending_valid _ _ _ hp
      · exact hdb.committed_valid _ _ hc
    · exact hdb.pending_valid k owner w hw
  | insert hvalid hinsert =>
    refine { hdb with
      bindings_keys := hdb.bindings_keys.insert hinsert
      committed_valid := ?_
      pending_valid := ?_ }
    · intro k b hb
      rw [hsame.bindings] at hb
      exact hdb.committed_valid k b hb
    intro k owner w hw
    rw [pendingAt_insert hinsert] at hw
    split at hw
    · cases hw
      exact hvalid
    · exact hdb.pending_valid k owner w hw
  | delete hdelete =>
    exact { hdb with conversations_keys := hdb.conversations_keys.updateWhere hdelete }

theorem Consistent.rollback (hdb : Consistent db) (i : ℕ) : Consistent (db.rollback i) := by
  have hsame := sameCommitted_rollback hdb i
  refine
    { bindings_keys := hdb.bindings_keys.rollback i
      conversations_keys := hdb.conversations_keys.rollback i
      codes_keys := hdb.codes_keys.rollback i
      committed_valid := ?_
      pending_valid := ?_
      used_once := hdb.used_once
      used_consumed := ?_ }
  · intro k b hb
    rw [hsame.bindings] at hb
    exact hdb.committed_valid k b hb
  · intro k owner b hb
    have hb' : pendingAt (ReadCommitted.rollback i db.bindings) k = some (owner, b) := hb
    rw [pendingAt_rollback hdb.bindings_keys, Option.filter_eq_some_iff] at hb'
    exact hdb.pending_valid k owner b hb'.1
  · intro h j hused
    rw [hsame.codes]
    exact hdb.used_consumed h j hused

theorem Consistent.commit (hdb : Consistent db) (i : ℕ) (honce : (bound.map Prod.fst).Nodup)
    (hused : ∀ h j, (h, j) ∈ bound →
      ∃ c, committedAt (ReadCommitted.commit i db.codes) h = some c ∧ c.consumedAt ≠ none) :
    Consistent { db.commit i with bound } := by
  refine
    { bindings_keys := hdb.bindings_keys.commit i
      conversations_keys := hdb.conversations_keys.commit i
      codes_keys := hdb.codes_keys.commit i
      committed_valid := ?_
      pending_valid := ?_
      used_once := honce
      used_consumed := hused }
  · intro k b hb
    have hb' : committedAt (ReadCommitted.commit i db.bindings) k = some b := hb
    rw [committedAt_commit] at hb'
    split at hb'
    next owner v hp =>
      split at hb'
      · cases hb'
        exact hdb.pending_valid k owner b hp
      · exact hdb.committed_valid k b hb'
    next => exact hdb.committed_valid k b hb'
  · intro k owner b hb
    have hb' : pendingAt (ReadCommitted.commit i db.bindings) k = some (owner, b) := hb
    rw [pendingAt_commit, Option.filter_eq_some_iff] at hb'
    exact hdb.pending_valid k owner b hb'.1

theorem committedAt_commit_of_working (h : Held i code db .working) (k : String) :
    committedAt (ReadCommitted.commit i db.codes) k = committedAt db.codes k :=
  committedAt_commit_of_same fun v hp => (h k v hp).2

theorem committedAt_commit_of_consumed {c : Code} (hold : HoldsOnly i h c db.codes) (k : String) :
    committedAt (ReadCommitted.commit i db.codes) k = if k = h then some c else committedAt db.codes k := by
  split
  next hk => exact hk ▸ committedAt_commit_of_pendingAt hold.1
  next hk =>
    apply committedAt_commit_of_not_holds
    intro v hv
    exact hk (hold.2 k v hv)

theorem Consistent.trans {stage : Stage} (hdb : Consistent db) (hheld : Held i code db stage)
    (h : Trans i code db stage db' stage') :
    Consistent db' := by
  cases h with
  | work hwork => exact hdb.work hwork
  | consume hcode hselect hfresh hfree =>
    refine { hdb with codes_keys := hdb.codes_keys.write _ _ _, used_consumed := ?_ }
    intro h j hused
    rw [committedAt_write]
    exact hdb.used_consumed h j hused
  | @commitBound h bindingId hcode =>
    obtain ⟨h', c, now, hcode', hold, hcommitted, hfresh⟩ := hheld
    obtain rfl : h = h' := Option.some.inj (hcode.symm.trans hcode')
    -- the code that the call holds is committed as unconsumed, so no call has succeeded with it
    have hunused : ∀ j, (h, j) ∉ db.bound := by
      intro j hused
      obtain ⟨c', hc', hconsumed⟩ := hdb.used_consumed h j hused
      rw [hcommitted] at hc'
      cases hc'
      exact hconsumed hfresh
    apply hdb.commit
    · rw [List.map_append, List.nodup_append]
      refine ⟨hdb.used_once, by simp, ?_⟩
      rintro a ha b hb rfl
      obtain ⟨⟨a', j⟩, hmem, rfl⟩ := List.mem_map.mp ha
      simp only [List.map_cons, List.map_nil, List.mem_singleton] at hb
      subst hb
      exact hunused j hmem
    -- the commit publishes that the code is consumed, and leaves the other codes alone
    · intro k j hused
      rw [committedAt_commit_of_consumed hold]
      rcases List.mem_append.mp hused with hold' | hnew
      · have hk : k ≠ h := by
          rintro rfl
          exact hunused j hold'
        rw [if_neg hk]
        exact hdb.used_consumed k j hold'
      · simp only [List.mem_singleton, Prod.mk.injEq] at hnew
        rw [if_pos hnew.1]
        exact ⟨_, rfl, by simp [consumed]⟩
  | commit hcode =>
    apply hdb.commit i hdb.used_once
    intro h j hused
    rw [committedAt_commit_of_working hheld]
    exact hdb.used_consumed h j hused
  | read => exact hdb
  | rollback => exact hdb.rollback i

theorem Held.committed {c : Code} (hheld : Held i code db .working) (hselect : select i h db.codes = some c) :
    committedAt db.codes h = some c := by
  rcases pendingAt_or_committedAt_of_select hselect with hown | hcommitted
  · exact (hheld h c hown).2
  · exact hcommitted

theorem Held.work (hheld : Held i code db .working) (h : Work i code db db') : Held i code db' .working := by
  cases h with
  | read => exact hheld
  | @lockCode h₀ c₀ hcode hselect hfree =>
    intro h c hp
    rw [committedAt_write]
    by_cases hh : h = h₀
    · subst hh
      obtain ⟨r, hr⟩ := row_isSome_of_visible hselect
      rw [pendingAt_write_self i c₀ hr] at hp
      cases hp
      exact ⟨hcode, hheld.committed hselect⟩
    · rw [pendingAt_write_of_ne i hh] at hp
      exact hheld h c hp
  | write _ _ _ => exact hheld
  | insert _ _ => exact hheld
  | delete _ => exact hheld

theorem Held.trans (hdb : Consistent db) (hheld : Held i code db stage) (h : Trans i code db stage db' stage') :
    Held i code db' stage' := by
  cases h with
  | work hwork => exact hheld.work hwork
  | @consume h bindingId now c hcode hselect hfresh hfree =>
    obtain ⟨r, hr⟩ := row_isSome_of_visible hselect
    refine ⟨h, c, now, hcode, ⟨pendingAt_write_self i _ hr, ?_⟩, ?_, hfresh⟩
    -- a call locks no code but its own
    · intro h' c' hp
      by_contra hne
      rw [pendingAt_write_of_ne i hne] at hp
      have hcode' := (hheld h' c' hp).1
      rw [hcode] at hcode'
      exact hne (Option.some.inj hcode').symm
    · rw [committedAt_write]
      exact hheld.committed hselect
  | @commitBound h bindingId hcode =>
    obtain ⟨h', c, now, hcode', hold, -, -⟩ := hheld
    obtain rfl : h = h' := Option.some.inj (hcode.symm.trans hcode')
    refine ⟨h, consumed bindingId now c, hcode, by simp, holdsNone_commit i db.codes, ?_, ?_, rfl⟩
    · exact committedAt_commit_of_pendingAt hold.1
    · simp [consumed]
  | commit hcode => exact holdsNone_commit i db.codes
  | read => exact hheld
  | rollback => exact holdsNone_rollback hdb.codes_keys i

/-- What other calls leave to call `j`: its locks, consumed codes and the record. -/
structure Frame (j : ℕ) (db db' : Db) : Prop where
  codes : Untouched j db.codes db'.codes
  consumed : ∀ h c, committedAt db.codes h = some c → c.consumedAt ≠ none → committedAt db'.codes h = some c
  bound : ∀ e ∈ db.bound, e ∈ db'.bound

theorem Frame.sameCodes (hcodes : db'.codes = db.codes) (hbound : db'.bound = db.bound) : Frame j db db' :=
  ⟨hcodes ▸ .refl j _, fun _ _ hc _ => hcodes ▸ hc, fun _ he => hbound ▸ he⟩

theorem Frame.writeCode (hij : i ≠ j) (c : Code) (hfree : Free i h db.codes) :
    Frame j db { db with codes := write i h c db.codes } := by
  refine ⟨untouched_write hij hfree c, ?_, fun e he => he⟩
  intro k c' hc _
  rwa [committedAt_write]

theorem frame_of_trans {stage : Stage} (hij : i ≠ j) (hdb : Consistent db) (hheld : Held i code db stage)
    (h : Trans i code db stage db' stage') :
    Frame j db db' := by
  cases h with
  | work hwork =>
    cases hwork with
    | read => exact .sameCodes rfl rfl
    | lockCode hcode hselect hfree => exact .writeCode hij _ hfree
    | write _ _ _ => exact .sameCodes rfl rfl
    | insert _ _ => exact .sameCodes rfl rfl
    | delete _ => exact .sameCodes rfl rfl
  | consume hcode hselect hfresh hfree => exact .writeCode hij _ hfree
  | @commitBound h bindingId hcode =>
    obtain ⟨h', c, now, hcode', hold, hcommitted, hfresh⟩ := hheld
    refine ⟨untouched_commit hij _, ?_, fun e he => List.mem_append_left _ he⟩
    intro k c' hc hconsumed
    -- the code that this commit publishes was not consumed before
    have hk : k ≠ h' := by
      rintro rfl
      rw [hcommitted] at hc
      cases hc
      exact hconsumed hfresh
    have hkeep := committedAt_commit_of_consumed hold k
    rw [if_neg hk, hc] at hkeep
    exact hkeep
  | commit hcode =>
    refine ⟨untouched_commit hij _, ?_, fun e he => he⟩
    intro k c hc _
    exact (committedAt_commit_of_working hheld k).trans hc
  | read => exact .sameCodes rfl rfl
  | rollback =>
    refine ⟨untouched_rollback hij hdb.codes_keys, ?_, fun e he => he⟩
    intro k c hc _
    exact (committedAt_rollback hdb.codes_keys i k).trans hc

theorem Held.frame (hheld : Held j code db stage) (h : Frame j db db') : Held j code db' stage := by
  cases stage with
  | working =>
    intro k c hp
    have hp' := (h.codes.pending k c).mp hp
    obtain ⟨hcode, hcommitted⟩ := hheld k c hp'
    exact ⟨hcode, (h.codes.committed k c hp').trans hcommitted⟩
  | consumed bindingId =>
    obtain ⟨k, c, now, hcode, hold, hcommitted, hfresh⟩ := hheld
    exact ⟨k, c, now, hcode, h.codes.holdsOnly hold, (h.codes.committed k _ hold.1).trans hcommitted, hfresh⟩
  | bound bindingId =>
    obtain ⟨k, c, hcode, hbound, hnone, hcommitted, hconsumed, hby⟩ := hheld
    exact ⟨k, c, hcode, h.bound _ hbound, h.codes.holdsNone hnone, h.consumed k c hcommitted hconsumed,
      hconsumed, hby⟩
  | ended => exact h.codes.holdsNone hheld

/-! ## Runs -/

structure Db.Initial (db : Db) : Prop where
  bindings_keys : UniqueKeys db.bindings
  conversations_keys : UniqueKeys db.conversations
  codes_keys : UniqueKeys db.codes
  bindings_settled : ∀ k, pendingAt db.bindings k = none
  codes_settled : ∀ k, pendingAt db.codes k = none
  valid : ∀ k b, committedAt db.bindings k = some b → b.Valid
  bound : db.bound = []

def Call.Fresh : Call → Prop
  | .bind _ phase => phase = .selectCode
  | .owner _ phase => phase = .selectConnection
  | .block _ _ phase => phase = .update
  | .unblock _ phase => phase = .update
  | .unbind _ _ _ phase => phase = .get

theorem Call.Fresh.stage {call : Call} (h : call.Fresh) : call.stage = .working := by
  cases call with
  | bind a phase =>
    cases h
    rfl
  | owner a phase =>
    cases h
    rfl
  | block id admin phase =>
    cases h
    rfl
  | unblock id phase =>
    cases h
    rfl
  | unbind id user confirm phase =>
    cases h
    rfl

theorem Db.Initial.consistent (h : db.Initial) : Consistent db where
  bindings_keys := h.bindings_keys
  conversations_keys := h.conversations_keys
  codes_keys := h.codes_keys
  committed_valid := h.valid
  pending_valid := by
    intro k owner b hp
    simp [h.bindings_settled k] at hp
  used_once := by simp [h.bound]
  used_consumed := by simp [h.bound]

theorem holds_of_reaches {calls : List Call} (hdb : db.Initial) (hcalls : ∀ call ∈ calls, call.Fresh)
    (h : Reaches (next postgres) ⟨db, calls⟩ c) :
    Holds Consistent (fun i call db => Held i call.code db call.stage) c := by
  apply invariant_of_frame _ _ h
  · refine ⟨hdb.consistent, ?_⟩
    intro i call hcall
    rw [(hcalls call (List.mem_of_getElem? hcall)).stage]
    intro k c hp
    simp [hdb.codes_settled k] at hp
  · intro i k db call db' call' _ hG hL hnext
    obtain ⟨htrans, hcode⟩ := trans_of_next hnext
    rw [hcode]
    exact ⟨hG.trans hL htrans, hL.trans hG htrans⟩
  -- a statement of another call keeps what this one holds
  · intro i j k db call db' call' other hij _ hG hi hj hnext
    obtain ⟨htrans, -⟩ := trans_of_next hnext
    exact hj.frame (frame_of_trans hij hG hi htrans)

theorem sameCommitted_of_trans (hdb : Consistent db) (hcode : code = some h) (htrans : Trans i code db stage db' stage') :
    (h, i) ∈ db'.bound ∨ SameCommitted db db' := by
  cases htrans with
  | work hwork => exact .inr (sameCommitted_of_work hwork)
  | consume _ _ _ _ => exact .inr ⟨fun _ => rfl, fun _ => rfl, committedAt_write i _ _ _⟩
  | commitBound hcode' =>
    cases hcode.symm.trans hcode'
    exact .inl (List.mem_append_right _ (List.mem_singleton_self _))
  | commit hcode' => cases hcode.symm.trans hcode'
  | read => exact .inr (.refl db)
  | rollback => exact .inr (sameCommitted_rollback hdb i)

theorem bound_of_trans (h : Trans i code db stage db' stage') {e : String × ℕ} (he : e ∈ db.bound) : e ∈ db'.bound := by
  cases h with
  | work hwork => cases hwork <;> exact he
  | commitBound _ => exact List.mem_append_left _ he
  | _ => exact he

/-- What is recorded stays recorded. -/
theorem bound_of_reaches (h : Reaches (next postgres) c c') {e : String × ℕ} (he : e ∈ c.shared.bound) :
    e ∈ c'.shared.bound := by
  induction h with
  | refl => exact he
  | tail _ hstep ih =>
    cases hstep with
    | act i k hp _ hnext => exact bound_of_trans (trans_of_next hnext).1 ih

theorem failed_bind_commits_nothing
    (hdb : db.Initial) (hcalls : ∀ call ∈ calls, call.Fresh) (h₁ : Reaches (next postgres) ⟨db, calls⟩ c₁)
    (hact : act (next postgres) c₁ i k = some c₂) (h₂ : Reaches (next postgres) c₂ c)
    (hi : c.procs[i]? = some (Call.bind a phase)) (hnot : (a.codeHash, i) ∉ c.shared.bound) :
    SameCommitted c₁.shared c₂.shared := by
  obtain ⟨hG, -⟩ := holds_of_reaches hdb hcalls h₁
  obtain ⟨call, db', call', hcall, hnext, rfl⟩ := act_eq_some hact
  obtain ⟨hlt, -⟩ := List.getElem?_eq_some_iff.mp hcall
  obtain ⟨htrans, hkeep⟩ := trans_of_next hnext
  have hcode : call'.code = some a.codeHash := by
    -- a call keeps its code to the end of the run
    obtain ⟨last, hlast, hsame⟩ :=
      proc_persists (P := fun q => q.code = call'.code) (fun _ _ _ _ _ _ hn hq => (trans_of_next hn).2.trans hq)
        h₂ (List.getElem?_set_self hlt) rfl
    rw [hi] at hlast
    cases hlast
    exact hsame.symm
  rcases sameCommitted_of_trans hG (hkeep.symm.trans hcode) htrans with hbound | hsame
  · exact absurd (bound_of_reaches h₂ hbound) hnot
  · exact hsame

/-- A code binds once and is then consumed, a call that raises uncommitted has changed nothing, and a blocked binding is
not enabled. -/
theorem binding_codes_safe {postgres : Bool} {db : Db} {calls : List Call} {c : Conf Db Call}
    (hdb : db.Initial) (hcalls : ∀ call ∈ calls, call.Fresh) (h : Reaches (next postgres) ⟨db, calls⟩ c) :
    (c.shared.bound.map Prod.fst).Nodup ∧
    (∀ h i, (h, i) ∈ c.shared.bound → ∃ code, committedAt c.shared.codes h = some code ∧ code.consumedAt ≠ none) ∧
    (∀ (i j : ℕ) (a a' : BindArgs) (id id' : String) (new new' : Bool),
      c.procs[i]? = some (Call.bind a (.bound id new)) →
      c.procs[j]? = some (Call.bind a' (.bound id' new')) → a.codeHash = a'.codeHash → i = j) ∧
    (∀ (i : ℕ) (a : BindArgs) (id : String) (new : Bool), c.procs[i]? = some (Call.bind a (.bound id new)) →
      ∃ code, committedAt c.shared.codes a.codeHash = some code ∧ code.consumedAt ≠ none ∧
        code.consumedByBindingId = some id) ∧
    (∀ (i : ℕ) (a : BindArgs) (e : BindingError), c.procs[i]? = some (Call.bind a (.raised e)) →
      (a.codeHash, i) ∉ c.shared.bound →
      ∀ (c₁ c₂ : Conf Db Call) (k : Choice), Reaches (next postgres) ⟨db, calls⟩ c₁ →
        act (next postgres) c₁ i k = some c₂ → Reaches (next postgres) c₂ c →
        SameCommitted c₁.shared c₂.shared) ∧
    (∀ k b, committedAt c.shared.bindings k = some b → b.blocked = true → b.enabled = false) := by
  obtain ⟨hG, hL⟩ := holds_of_reaches hdb hcalls h
  refine ⟨hG.used_once, hG.used_consumed, ?_, ?_, ?_, hG.committed_valid⟩
  · intro i j a a' id id' new new' hi hj hcode
    obtain ⟨k, -, hk, hmem, -⟩ := hL i _ hi
    obtain ⟨k', -, hk', hmem', -⟩ := hL j _ hj
    cases hk
    cases hk'
    -- both calls are recorded under the same code, which is recorded once
    rw [hcode] at hmem
    exact (Prod.mk.inj (List.inj_on_of_nodup_map hG.used_once hmem hmem' rfl)).2
  · intro i a id new hi
    obtain ⟨k, code, hk, -, -, hcommitted, hconsumed, hby⟩ := hL i _ hi
    cases hk
    exact ⟨code, hcommitted, hconsumed, hby⟩
  · intro i a e hi hnot c₁ c₂ k h₁ hact h₂
    exact failed_bind_commits_nothing hdb hcalls h₁ hact h₂ hi hnot

def sampleCode : Code := ⟨"code-1", "user-1", none, 1000, none, none⟩

def sampleDb : Db := ⟨[], [], [⟨"hash-1", some sampleCode, none⟩], []⟩

def sampleCall (externalUserId : String) : Call :=
  .bind ⟨"connection-1", .qq, externalUserId, none, "hash-1"⟩ .selectCode

def atOnce (uuid : String) : Choice := ⟨true, 100, uuid, some "user", none⟩

def sampleSchedule : List (ℕ × Choice) :=
  [(0, atOnce ""), (0, atOnce ""), (0, atOnce ""), (0, atOnce "binding-1"), (0, atOnce ""), (0, atOnce ""),
    (0, atOnce ""), (1, atOnce "")]

theorem binding_codes_safe_contest : ∃ c, Reaches (next true) ⟨sampleDb, [sampleCall "alice", sampleCall "bob"]⟩ c ∧
      c.procs.map Call.stage = [.bound "binding-1", .ended] ∧
      ∀ k b, committedAt c.shared.bindings k = some b → b.blocked = true → b.enabled = false := by
  have hdb : sampleDb.Initial := by
    constructor
    · exact List.nodup_nil
    · exact List.nodup_nil
    · exact List.nodup_singleton _
    · exact fun _ => rfl
    · intro k
      simp only [sampleDb, pendingAt, row, List.find?_cons]
      split <;> rfl
    · intro k b hb
      cases hb
    · rfl
  have hcalls : ∀ call ∈ [sampleCall "alice", sampleCall "bob"], call.Fresh := by
    intro call hcall
    simp only [List.mem_cons, List.not_mem_nil, or_false] at hcall
    rcases hcall with rfl | rfl <;> rfl
  have hsome : (runSchedule (next true) ⟨sampleDb, [sampleCall "alice", sampleCall "bob"]⟩
      sampleSchedule).isSome = true := by decide
  have hreach := reaches_of_runSchedule (Option.some_get hsome).symm
  exact ⟨_, hreach, by rfl, (binding_codes_safe hdb hcalls hreach).2.2.2.2.2⟩

/-- The connection to the database is lost between the commit and the `refresh`. -/
theorem refresh_raises_after_commit : ∃ c, Reaches (next true) ⟨sampleDb, [sampleCall "alice"]⟩ c ∧
      c.procs = [.bind ⟨"connection-1", .qq, "alice", none, "hash-1"⟩ (.raised .database)] ∧
      ¬ SameCommitted sampleDb c.shared := by
  have hsome : (runSchedule (next true) ⟨sampleDb, [sampleCall "alice"]⟩
      (sampleSchedule.take 6 ++ [(0, { atOnce "" with ok := false })])).isSome = true := by decide
  refine ⟨_, reaches_of_runSchedule (Option.some_get hsome).symm, by rfl, ?_⟩
  intro hsame
  cases hsame.bindings ("connection-1", "alice")

end RyanAI.Backend.Bindings
