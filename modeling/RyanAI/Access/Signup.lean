import RyanAI.Lib.Interleaving

/-!
# The first administrator

`signup_handler` inserts the new account with the default role and counts the users afterwards; only the user that finds
itself alone is promoted. Any number of these calls run over one user table, one database statement at a time.

Two calls cannot both count one user (`atMostOneAdmin`). That there is an administrator at all needs `Uncontested`: no
account is inserted while the only account there is has not been counted yet.
-/

namespace RyanAI.Access.Signup

open RyanAI.Lib
open RyanAI.Lib.Interleaving

/-- A row of the table `user`, as far as the signup reads and writes it. -/
structure User where
  id : String
  email : String
  name : String
  role : String
deriving DecidableEq, Repr

abbrev Users := List User

/-- A call of `signup_handler`, with its `uuid4`. -/
structure NewAuth where
  newId : String
  email : String
  name : String
deriving DecidableEq, Repr

/-- Where a call stands; `finished` tells whether it wrote the role. -/
inductive Phase where
  | insert
  | count
  | promote
  | done (promoted : Bool)
deriving DecidableEq, Repr

structure Call where
  signup : NewAuth
  phase : Phase
deriving DecidableEq, Repr

/-! ## The statements -/

/-- `Auths.insert_new_auth`: the `user` row of the new account, committed. -/
def insertNewAuth (users : Users) (s : NewAuth) (role : String) : Users := users ++ [⟨s.newId, s.email, s.name, role⟩]

/-- `Users.get_num_users`. -/
def getNumUsers (users : Users) : Nat := users.length

/-- `Users.update_user_role_by_id`. A missing user is left missing. -/
def updateUserRoleById (users : Users) (id role : String) : Users :=
  users.map fun u => if u.id = id then { u with role := role } else u

/-- One statement of `signup_handler`. -/
def next (defaultRole : String) (_ : Nat) (users : Users) (c : Call) (_ : Unit) : Option (Users × Call) :=
  match c.phase with
  | .insert => some (insertNewAuth users c.signup defaultRole, { c with phase := .count })
  | .count =>
    if getNumUsers users = 1 then some (users, { c with phase := .promote })
    else some (users, { c with phase := .done false })
  | .promote => some (updateUserRoleById users c.signup.newId "admin", { c with phase := .done true })
  | .done _ => none

def start (signups : List NewAuth) : Conf Users Call := ⟨[], signups.map fun s => ⟨s, .insert⟩⟩

def Finished (c : Conf Users Call) : Prop := ∀ p ∈ c.procs, ∃ b, p.phase = .done b

instance (c : Conf Users Call) : Decidable (Finished c) :=
  decidable_of_iff (∀ p ∈ c.procs, (match p.phase with | .done _ => true | _ => false) = true) (by
    refine forall₂_congr fun p _ => ?_
    cases p.phase <;> simp)

/-- How many users have the role `admin`. -/
def adminCount (users : Users) : Nat := users.countP fun u => u.role == "admin"

def Contests (c : Conf Users Call) (i : Nat) : Prop :=
  (∃ p, c.procs[i]? = some p ∧ p.phase = .insert) ∧ getNumUsers c.shared = 1 ∧ ∃ q ∈ c.procs, q.phase = .count

def Uncontested (defaultRole : String) : Conf Users Call → List (Nat × Unit) → Prop :=
  Along (next defaultRole) fun c i _ => ¬ Contests c i

@[simp] theorem adminCount_nil : adminCount [] = 0 := rfl

variable {users users' : Users} {u : User} {i : Nat} {k : Unit} {p p' : Call}

theorem adminCount_eq_zero (hr : role ≠ "admin") (h : ∀ u ∈ users, u.role = role) : adminCount users = 0 := by
  rw [adminCount, List.countP_eq_zero]
  intro u hu
  simpa [h u hu] using hr

theorem adminCount_cons_admin (hu : u.role = "admin") : adminCount (u :: users) = adminCount users + 1 := by
  rw [adminCount, List.countP_cons_of_pos (by simp [hu])]
  rfl

theorem updateUserRoleById_cons (role : String) (h : u.id ∉ users.map User.id) :
    updateUserRoleById (u :: users) u.id role = { u with role := role } :: users := by
  simp only [updateUserRoleById, List.map_cons, if_true, List.cons.injEq, true_and]
  refine (List.map_congr_left fun v hv => ?_).trans (List.map_id users)
  have hne : v.id ≠ u.id := fun he => h (he ▸ List.mem_map_of_mem hv)
  rw [if_neg hne]
  rfl

theorem next_cases (h : next defaultRole i users c k = some (users', c')) :
    (c.phase = .insert ∧ users' = insertNewAuth users c.signup defaultRole ∧ c' = { c with phase := .count }) ∨
    (c.phase = .count ∧ users' = users ∧ users.length = 1 ∧ c' = { c with phase := .promote }) ∨
    (c.phase = .count ∧ users' = users ∧ users.length ≠ 1 ∧ c' = { c with phase := .done false }) ∨
    (c.phase = .promote ∧ users' = updateUserRoleById users c.signup.newId "admin" ∧
      c' = { c with phase := .done true }) := by
  obtain ⟨s, ph⟩ := c
  cases ph with
  | insert =>
    simp only [next, Option.some.injEq, Prod.mk.injEq] at h
    exact .inl ⟨rfl, h.1.symm, h.2.symm⟩
  | count =>
    simp only [next] at h
    by_cases hone : getNumUsers users = 1
    · rw [if_pos hone, Option.some.injEq, Prod.mk.injEq] at h
      exact .inr (.inl ⟨rfl, h.1.symm, hone, h.2.symm⟩)
    · rw [if_neg hone, Option.some.injEq, Prod.mk.injEq] at h
      exact .inr (.inr (.inl ⟨rfl, h.1.symm, hone, h.2.symm⟩))
  | promote =>
    simp only [next, Option.some.injEq, Prod.mk.injEq] at h
    exact .inr (.inr (.inr ⟨rfl, h.1.symm, h.2.symm⟩))
  | done b => cases h

/-! ## The stages of a run -/

/-- Each call keeps its place, its row is there once inserted, and ids differ. -/
structure Ordered (signups : List NewAuth) (c : Conf Users Call) : Prop where
  place : c.procs.map Call.signup = signups
  ids : (c.shared.map User.id).Nodup
  inserted : ∀ p ∈ c.procs, p.phase = .insert ↔ p.signup.newId ∉ c.shared.map User.id

def Call.Chosen (p : Call) : Prop := p.phase = .promote ∨ p.phase = .done true

inductive OnCourse (role : String) (c : Conf Users Call) : Prop
  | empty : c.shared = [] → OnCourse role c
  | alone (i : Nat) (s : NewAuth) : c.procs[i]? = some ⟨s, .count⟩ →
      c.shared = [⟨s.newId, s.email, s.name, role⟩] → OnCourse role c
  | crowned (i : Nat) (p : Call) (u : User) (rest : Users) : c.procs[i]? = some p →
      c.shared = u :: rest → u.id = p.signup.newId →
      (p.phase = .promote ∧ u.role = role ∨ p.phase = .done true ∧ u.role = "admin") →
      (∀ v ∈ rest, v.role = role) →
      (∀ j q, j ≠ i → c.procs[j]? = some q → ¬ q.Chosen) → OnCourse role c

structure Lost (role : String) (c : Conf Users Call) : Prop where
  many : 2 ≤ c.shared.length
  roles : ∀ v ∈ c.shared, v.role = role
  unchosen : ∀ q ∈ c.procs, ¬ q.Chosen

section Runs

variable {role : String} {signups : List NewAuth} {c c' : Conf Users Call}

section

variable (h : next role i users p k = some (users', p'))

include h

theorem next_signup : p'.signup = p.signup := by
  obtain ⟨-, -, rfl⟩ | ⟨-, -, -, rfl⟩ | ⟨-, -, -, rfl⟩ | ⟨-, -, rfl⟩ := next_cases h <;> rfl

theorem next_ids : users'.map User.id =
      users.map User.id ++ (if p.phase = .insert then [p.signup.newId] else []) := by
  obtain ⟨hp, rfl, -⟩ | ⟨hp, rfl, -, -⟩ | ⟨hp, rfl, -, -⟩ | ⟨hp, rfl, -⟩ := next_cases h
  · simp [hp, insertNewAuth]
  · simp [hp]
  · simp [hp]
  · simp only [hp, reduceCtorEq, if_false, List.append_nil, updateUserRoleById, List.map_map]
    refine List.map_congr_left fun u _ => ?_
    simp only [Function.comp_apply]
    split <;> rfl

theorem next_phase : p'.phase ≠ .insert := by
  obtain ⟨-, -, rfl⟩ | ⟨-, -, -, rfl⟩ | ⟨-, -, -, rfl⟩ | ⟨-, -, rfl⟩ := next_cases h <;> simp

end

theorem ordered_start (signups : List NewAuth) : Ordered signups (start signups) where
  place := by simp [start, Function.comp_def]
  ids := by simp [start]
  inserted := by
    intro p hp
    obtain ⟨s, -, rfl⟩ := List.mem_map.1 hp
    simp [start]

section

variable (ho : Ordered signups c) (hids : (signups.map NewAuth.newId).Nodup)

include ho hids

theorem Ordered.newId_ne
    (hp : c.procs[i]? = some p) (hq : c.procs[j]? = some q) (hij : i ≠ j) : p.signup.newId ≠ q.signup.newId := by
  intro he
  have hnodup : (c.procs.map fun p => p.signup.newId).Nodup := by
    rw [← ho.place, List.map_map] at hids
    exact hids
  obtain ⟨hi, hpi⟩ := List.getElem?_eq_some_iff.1 hp
  obtain ⟨hj, hqj⟩ := List.getElem?_eq_some_iff.1 hq
  have hlen : (c.procs.map fun p => p.signup.newId).length = c.procs.length := List.length_map _
  refine hij ((@List.Nodup.getElem_inj_iff _ _ hnodup i (hlen ▸ hi) j (hlen ▸ hj)).1 ?_)
  simp only [List.getElem_map, hpi, hqj, he]

theorem Ordered.act (h : act (next role) c i k = some c') : Ordered signups c' := by
  obtain ⟨p, users', p', hp, hn, rfl⟩ := act_eq_some h
  have hsign := next_signup hn
  have hidsEq := next_ids hn
  refine ⟨?_, ?_, ?_⟩
  · rw [List.map_set, hsign, ← ho.place]
    refine List.ext_getElem? fun j => ?_
    -- only the place of the acting call changes
    by_cases hij : i = j
    · subst hij
      obtain ⟨hlt, -⟩ := List.getElem?_eq_some_iff.1 hp
      rw [List.getElem?_set_self (by simpa using hlt), List.getElem?_map, hp]
      rfl
    · rw [List.getElem?_set_ne hij]
  · rw [hidsEq]
    by_cases hph : p.phase = .insert
    · rw [if_pos hph, List.nodup_append]
      refine ⟨ho.ids, by simp, fun a ha b hb => ?_⟩
      obtain rfl := List.mem_singleton.1 hb
      rintro rfl
      exact (ho.inserted p (List.mem_of_getElem? hp)).1 hph ha
    · rw [if_neg hph, List.append_nil]
      exact ho.ids
  · intro q hq
    rw [hidsEq]
    obtain ⟨j, hj⟩ := List.getElem?_of_mem hq
    by_cases hij : i = j
    · subst hij
      obtain ⟨hlt, -⟩ := List.getElem?_eq_some_iff.1 hp
      rw [List.getElem?_set_self hlt] at hj
      cases hj
      refine iff_of_false (next_phase hn) (not_not_intro ?_)
      rw [hsign]
      by_cases hph : p.phase = .insert
      · simp [hph]
      · have hmem := (not_congr (ho.inserted p (List.mem_of_getElem? hp))).1 hph
        exact List.mem_append_left _ (not_not.1 hmem)
    · rw [List.getElem?_set_ne hij] at hj
      rw [ho.inserted q (List.mem_of_getElem? hj), List.mem_append, not_or]
      refine (and_iff_left ?_).symm
      have hne := ho.newId_ne hids hj hp (Ne.symm hij)
      split
      · simpa using hne
      · simp

theorem Ordered.insert_of_ne (hp : c.procs[i]? = some p) (hs : c.shared = [u])
    (hu : u.id = p.signup.newId) (hq : c.procs[j]? = some q) (hij : j ≠ i) : q.phase = .insert := by
  rw [ho.inserted q (List.mem_of_getElem? hq), hs]
  have hne := ho.newId_ne hids hq hp hij
  simpa [hu] using hne

end

theorem unchosen_set {ps : List Call} (h' : ¬ p'.Chosen) {P : Nat → Prop}
    (h : ∀ j q, P j → ps[j]? = some q → ¬ q.Chosen) (j : Nat) (q : Call) (hj : P j)
    (hq : (ps.set i p')[j]? = some q) : ¬ q.Chosen := by
  by_cases hij : i = j
  · subst hij
    obtain ⟨hlt, -⟩ := List.getElem?_eq_some_iff.1 hq
    rw [List.getElem?_set_self (by simpa using hlt), Option.some.injEq] at hq
    exact hq ▸ h'
  · rw [List.getElem?_set_ne hij] at hq
    exact h j q hj hq

theorem Lost.act (hl : Lost role c) (h : act (next role) c i k = some c') : Lost role c' := by
  obtain ⟨p, users', p', hp, hn, rfl⟩ := act_eq_some h
  have hpc := hl.unchosen p (List.mem_of_getElem? hp)
  have hset : ∀ {q' : Call}, ¬ q'.Chosen → ∀ q ∈ c.procs.set i q', ¬ q.Chosen := by
    intro q' hq' q hq
    obtain ⟨j, hj⟩ := List.getElem?_of_mem hq
    exact unchosen_set (P := fun _ => True) hq'
      (fun j q _ hj => hl.unchosen q (List.mem_of_getElem? hj)) j q trivial hj
  -- the four statements: insert, a count of one, another count, promote
  obtain ⟨hph, rfl, rfl⟩ | ⟨-, -, hone, -⟩ | ⟨hph, rfl, -, rfl⟩ | ⟨hph, -, -⟩ := next_cases hn
  · refine ⟨?_, ?_, hset (by simp [Call.Chosen])⟩
    · have := hl.many
      simp only [insertNewAuth, List.length_append]
      omega
    · intro v hv
      rcases List.mem_append.1 hv with hv | hv
      · exact hl.roles v hv
      · rw [List.mem_singleton.1 hv]
  · have := hl.many
    omega
  · exact ⟨hl.many, hl.roles, hset (by simp [Call.Chosen])⟩
  · exact absurd (.inl hph) hpc

section

variable (hids : (signups.map NewAuth.newId).Nodup) (ho : Ordered signups c) (hc : OnCourse role c)

include hids ho hc

theorem OnCourse.lost_of_contests (hcon : Contests c i) (h : act (next role) c i k = some c') : Lost role c' := by
  obtain ⟨⟨p, hp, hph⟩, hone, q, hq, hqc⟩ := hcon
  obtain ⟨p₁, users', p', hp₁, hn, rfl⟩ := act_eq_some h
  obtain rfl : p = p₁ := Option.some.inj (hp.symm.trans hp₁)
  simp only [next, hph] at hn
  cases hn
  obtain ⟨m, hm⟩ := List.getElem?_of_mem hq
  have hmany : 2 ≤ (insertNewAuth c.shared p.signup role).length := by
    simp only [getNumUsers] at hone
    simp [insertNewAuth, hone]
  cases hc with
  | empty he => simp [getNumUsers, he] at hone
  | alone j s hj hs =>
    refine ⟨hmany, ?_, ?_⟩
    · simp [insertNewAuth, hs]
    intro r hr
    obtain ⟨l, hl⟩ := List.getElem?_of_mem hr
    refine unchosen_set (P := fun _ => True) (by simp [Call.Chosen]) (fun l r _ hl => ?_) l r
      trivial hl
    -- only the call of the account is past its insert, and it has not counted
    by_cases hlj : l = j
    · subst hlj
      rw [hj, Option.some.injEq] at hl
      simp [← hl, Call.Chosen]
    · have := ho.insert_of_ne hids hj hs rfl hl hlj
      simp [Call.Chosen, this]
  | crowned j r u rest hj hs hu hrole hrest hunch =>
    -- the only account is the chosen one, so that no other call is at its count
    have hnil : rest = [] := by
      simp only [getNumUsers, hs, List.length_cons] at hone
      exact List.length_eq_zero_iff.1 (by omega)
    subst hnil
    by_cases hmj : m = j
    · subst hmj
      rw [hj] at hm
      cases hm
      simp [hqc] at hrole
    · have := ho.insert_of_ne hids hj hs hu hm hmj
      simp [hqc] at this

theorem OnCourse.act (hcon : ¬ Contests c i) (h : act (next role) c i k = some c') : OnCourse role c' := by
  obtain ⟨p, users', p', hp, hn, rfl⟩ := act_eq_some h
  have hmem := List.mem_of_getElem? hp
  obtain ⟨hlt, -⟩ := List.getElem?_eq_some_iff.1 hp
  have hself : ∀ q : Call, (c.procs.set i q)[i]? = some q := fun q => List.getElem?_set_self hlt
  cases hc with
  | empty he =>
    -- without a row every call is at its insert
    have hins : p.phase = .insert := by
      rw [ho.inserted p hmem, he]
      simp
    simp only [next, hins] at hn
    cases hn
    exact .alone i p.signup (hself _) (by simp [he, insertNewAuth])
  | alone j s hj hs =>
    by_cases hij : i = j
    · subst hij
      rw [hj] at hp
      cases hp
      simp only [next, getNumUsers, hs, List.length_singleton, if_true, Option.some.injEq, Prod.mk.injEq] at hn
      obtain ⟨rfl, rfl⟩ := hn
      refine .crowned i _ ⟨s.newId, s.email, s.name, role⟩ [] (hself _) rfl rfl (.inl ⟨rfl, rfl⟩)
        (by simp) fun l q hl hq => ?_
      rw [List.getElem?_set_ne (Ne.symm hl)] at hq
      have := ho.insert_of_ne hids hj hs rfl hq hl
      simp [Call.Chosen, this]
    -- another call would insert while the first one has not counted
    · have hins := ho.insert_of_ne hids hj hs rfl hp hij
      exact absurd ⟨⟨p, hp, hins⟩, by simp [getNumUsers, hs],
        _, List.mem_of_getElem? hj, rfl⟩ hcon
  | crowned j r u rest hj hs hu hrole hrest hunch =>
    by_cases hij : i = j
    · subst hij
      rw [hj, Option.some.injEq] at hp
      subst hp
      rcases hrole with ⟨hph, hrole⟩ | ⟨hph, -⟩
      · simp only [next, hph, Option.some.injEq, Prod.mk.injEq] at hn
        obtain ⟨rfl, rfl⟩ := hn
        -- the update finds one row
        have hnot : u.id ∉ rest.map User.id := by
          have := ho.ids
          rw [hs, List.map_cons, List.nodup_cons] at this
          exact this.1
        refine .crowned i _ { u with role := "admin" } rest (hself _) ?_ hu (.inr ⟨rfl, rfl⟩) hrest
          fun l q hl hq => ?_
        · rw [hs, ← hu]
          exact updateUserRoleById_cons "admin" hnot
        · rw [List.getElem?_set_ne (Ne.symm hl)] at hq
          exact hunch l q hl hq
      · simp [next, hph] at hn
    · have hrj : (c.procs.set i p')[j]? = some r := by
        rw [List.getElem?_set_ne hij]
        exact hj
      have hpc := hunch i p hij hp
      obtain ⟨hph, rfl, rfl⟩ | ⟨hph, rfl, hone, -⟩ | ⟨hph, rfl, -, rfl⟩ | ⟨hph, -, -⟩ := next_cases hn
      · refine .crowned j r u (rest ++ [⟨p.signup.newId, p.signup.email, p.signup.name, role⟩]) hrj
          (by simp [insertNewAuth, hs]) hu hrole ?_
          (unchosen_set (by simp [Call.Chosen]) fun l q hl hq => hunch l q hl hq)
        intro v hv
        rcases List.mem_append.1 hv with hv | hv
        · exact hrest v hv
        · rw [List.mem_singleton.1 hv]
      · -- a second call at its count has a row of its own, so that it cannot count one user
        have hnil : rest = [] := by
          rw [hs, List.length_cons] at hone
          exact List.length_eq_zero_iff.1 (by omega)
        subst hnil
        have := ho.insert_of_ne hids hj hs hu hp hij
        simp [hph] at this
      · exact .crowned j r u rest hrj hs hu hrole hrest
          (unchosen_set (by simp [Call.Chosen]) fun l q hl hq => hunch l q hl hq)
      · exact absurd (.inl hph) hpc

theorem onCourse_or_lost (h : runSchedule (next role) c acts = some c') :
    Ordered signups c' ∧ (Uncontested role c acts ∧ OnCourse role c' ∨ ¬ Uncontested role c acts ∧ Lost role c') := by
  have lost : ∀ {d d' : Conf Users Call} {bs : List (Nat × Unit)}, Ordered signups d → Lost role d →
      runSchedule (next role) d bs = some d' → Ordered signups d' ∧ Lost role d' := by
    intro d d' bs hd hl hr
    induction bs generalizing d with
    | nil =>
      simp only [runSchedule, Option.some.injEq] at hr
      exact hr ▸ ⟨hd, hl⟩
    | cons b rest ih =>
      simp only [runSchedule, Option.bind_eq_some_iff] at hr
      obtain ⟨e, he, hr⟩ := hr
      exact ih (hd.act hids he) (hl.act he) hr
  induction acts generalizing c with
  | nil =>
    simp only [runSchedule] at h
    cases h
    exact ⟨ho, .inl ⟨trivial, hc⟩⟩
  | cons a rest ih =>
    obtain ⟨i, k⟩ := a
    simp only [runSchedule, Option.bind_eq_some_iff] at h
    obtain ⟨d, hd, h⟩ := h
    have hod := ho.act hids hd
    -- the first contested insert decides: before it the run is on course, behind it it stays lost
    by_cases hcon : Contests c i
    · obtain ⟨ho', hl⟩ := lost hod (hc.lost_of_contests hids ho hcon hd) h
      exact ⟨ho', .inr ⟨fun hu => hu.1 hcon, hl⟩⟩
    obtain ⟨ho', ⟨hu, hc'⟩ | ⟨hu, hl⟩⟩ := ih hod (hc.act hids ho hcon hd) h
    · refine ⟨ho', .inl ⟨⟨hcon, fun e he => ?_⟩, hc'⟩⟩
      rw [hd, Option.some.injEq] at he
      exact he ▸ hu
    · exact ⟨ho', .inr ⟨fun hun => hu (hun.2 d hd), hl⟩⟩

end

theorem Lost.adminCount (hr : role ≠ "admin") (hl : Lost role c) : adminCount c.shared = 0 :=
  adminCount_eq_zero hr hl.roles

theorem OnCourse.adminCount (hr : role ≠ "admin") (ho : Ordered signups c) (hne : signups ≠ []) (hc : OnCourse role c) :
    Signup.adminCount c.shared ≤ 1 ∧ (Finished c → Signup.adminCount c.shared = 1) := by
  cases hc with
  | empty he =>
    refine ⟨by simp [he], fun hfin => ?_⟩
    obtain ⟨p, hp⟩ : ∃ p, p ∈ c.procs := by
      apply List.exists_mem_of_ne_nil
      intro hnil
      apply hne
      rw [← ho.place, hnil]
      rfl
    obtain ⟨b, hb⟩ := hfin p hp
    have := (ho.inserted p hp).2 (by simp [he])
    simp [hb] at this
  | alone j s hj hs =>
    refine ⟨by simp [hs, Signup.adminCount, hr], fun hfin => ?_⟩
    obtain ⟨b, hb⟩ := hfin _ (List.mem_of_getElem? hj)
    cases hb
  | crowned j r u rest hj hs hu hrole hrest hunch =>
    have hzero := adminCount_eq_zero hr hrest
    rcases hrole with ⟨hph, hrole⟩ | ⟨hph, hrole⟩
    · refine ⟨?_, fun hfin => ?_⟩
      · rw [hs, adminCount_eq_zero hr (by simpa [hrole] using hrest)]
        exact Nat.zero_le 1
      · obtain ⟨b, hb⟩ := hfin _ (List.mem_of_getElem? hj)
        simp [hph] at hb
    · rw [hs, adminCount_cons_admin hrole, hzero]
      exact ⟨le_rfl, fun _ => rfl⟩

/-- One administrator at most, and one exactly when no insert was contested. -/
theorem exactly_one_admin_iff (defaultRole : String) (hrole : defaultRole ≠ "admin")
    (signups : List NewAuth) (hids : (signups.map NewAuth.newId).Nodup) (hne : signups ≠ [])
    (acts : List (Nat × Unit)) (c : Conf Users Call)
    (hrun : runSchedule (next defaultRole) (start signups) acts = some c) (hfin : Finished c) :
    adminCount c.shared ≤ 1 ∧ (adminCount c.shared = 1 ↔ Uncontested defaultRole (start signups) acts) := by
  obtain ⟨ho, ⟨hu, hc⟩ | ⟨hu, hl⟩⟩ := onCourse_or_lost hids (ordered_start signups) (.empty rfl) hrun
  · obtain ⟨hle, hone⟩ := hc.adminCount hrole ho hne
    exact ⟨hle, iff_of_true (hone hfin) hu⟩
  · rw [hl.adminCount hrole]
    exact ⟨Nat.zero_le 1, iff_of_false (by decide) hu⟩

end Runs

def rivals : List NewAuth := [⟨"a", "a@example.org", "A"⟩, ⟨"b", "b@example.org", "B"⟩]

theorem exactly_one_admin_iff_rivals :
    ∃ c, runSchedule (next "pending") (start rivals) [(0, ()), (0, ()), (1, ()), (1, ()), (0, ())] =
        some c ∧ Finished c ∧ adminCount c.shared ≤ 1 ∧ (adminCount c.shared = 1 ↔
      Uncontested "pending" (start rivals) [(0, ()), (0, ()), (1, ()), (1, ()), (0, ())]) :=
  ⟨_, rfl, by decide, exactly_one_admin_iff "pending" (by decide) rivals (by decide) (by decide)
    [(0, ()), (0, ()), (1, ()), (1, ()), (0, ())] _ rfl (by decide)⟩

/-- Both calls count two users, and the table is left without an administrator. -/
theorem no_admin_of_rival_signups :
    ∃ c, runSchedule (next "pending") (start rivals) [(0, ()), (1, ()), (0, ()), (1, ())] = some c ∧
      Finished c ∧ adminCount c.shared = 0 :=
  ⟨_, rfl, by decide, by decide⟩

end RyanAI.Access.Signup
