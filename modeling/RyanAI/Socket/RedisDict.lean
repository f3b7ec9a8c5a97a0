import RyanAI.Lib.Interleaving
import RyanAI.Lib.OrderedMap
import RyanAI.Lib.Terminated

/-!
# The shared map of `socket/utils.py`

`CachedRedisDict`: a Redis hash, and a signature that says what is in it, the digest of a mapping next to a random name.
The Redis commands of any number of calls interleave. A writer removes the signature after it has changed the hash;
`set` puts its own in place when it is done. A reader fetches the hash when the signature is not that of its cache.

A field that another call writes during a `set` ends up under its signature (`set_signs_a_mixture`). Where the hash
holds the mapping of a `set` at the moment that it signs, a signature without a write in progress tells what is in the
hash (`signed_map_is_coherent`).
-/

namespace RyanAI.Socket.RedisDict

open RyanAI.Lib
open RyanAI.Lib.Interleaving (Conf StepWhere ReachesWhere)

/-! ## Data -/

/-- What `JSONCodec.dumps` returns: JSON text, in which a NUL is escaped. -/
structure Serialized where
  text : String
  noNul : nul ∉ text.toList
deriving DecidableEq

abbrev Mapping := KeyedTable String Serialized

def Same (m m' : Mapping) : Prop := ∀ key, m.get key = m'.get key

variable {m m' : Mapping} {name : String}

theorem same_iff : Same m m' ↔ ∀ key ∈ m.keys ++ m'.keys, m.get key = m'.get key := by
  constructor
  · intro h key _
    exact h key
  intro h key
  by_cases hmem : key ∈ m.keys ++ m'.keys
  · exact h key hmem
  · obtain ⟨hm, hm'⟩ := not_or.1 (fun hor => hmem (List.mem_append.2 hor))
    rw [KeyedTable.mem_keys, Option.not_isSome_iff_eq_none] at hm hm'
    rw [hm, hm']

instance (m m' : Mapping) : Decidable (Same m m') := decidable_of_iff _ same_iff.symm

/-- The bytes that `set` feeds to the digest, as text. -/
def fingerprint (m : Mapping) : String :=
  String.ofList (terminated nul
    ((m.entries.insertionSort fun a b => a.1 ≤ b.1).flatMap fun entry => [entry.1.toList, entry.2.text.toList]))

inductive Write where
  | setItem (key : String) (value : Serialized)
  | delItem (key : String)
  | deleteMany (keys : List String)
  | set (mapping : Mapping)
  | clear

inductive Stage where
  | start
  | dropSignature
  | listKeys
  | hset (stale : List String)
  | hdel (stale : List String)
  | sign
  | invalidate
  | done

inductive Proc where
  | writer (write : Write) (stage : Stage)
  /-- A worker's cache, and the signature under which it is about to fetch the hash. -/
  | reader (cachedSignature : Option String) (cache : Mapping) (fetching : Option (Option String))

structure Shared where
  hash : Mapping
  signature : Option String
  /-- The signatures there have been. -/
  issued : List String

section

variable (sha256 : String → String)

def contentDigest (m : Mapping) : String := sha256 (fingerprint m)

def Signs (signature : String) (m : Mapping) : Bool :=
  (contentDigest sha256 m ++ ":").toList.isPrefixOf signature.toList

/-- A command of a call. The last argument is the random name in a signature. -/
def writeStep (s : Shared) (name : String) : Write → Stage → Option (Shared × Stage)
  | .setItem key value, .start => some ({ s with hash := s.hash.set key value }, .invalidate)
  | .delItem key, .start =>
    -- without the field there is a `KeyError`
    if (s.hash.get key).isNone then some (s, .done)
    else some ({ s with hash := s.hash.delete key }, .invalidate)
  | .deleteMany [], .start => some (s, .done)
  | .deleteMany (key :: keys), .start =>
    some ({ s with hash := s.hash.filter fun k _ => decide (k ∉ key :: keys) }, .invalidate)
  | .clear, .start => some ({ s with hash := .empty }, .invalidate)
  | .set m, .start =>
    if m.entries = [] then some ({ s with hash := .empty }, .invalidate)
    else if s.signature.any fun signature => Signs sha256 signature m then some (s, .done)
    else some (s, .dropSignature)
  | .set _, .dropSignature => some ({ s with signature := none }, .listKeys)
  | .set m, .listKeys => some (s, .hset (s.hash.keys.filter (· ∉ m.keys)))
  | .set m, .hset stale =>
    some ({ s with hash := s.hash.update m }, if stale = [] then .sign else .hdel stale)
  | .set _, .hdel stale => some ({ s with hash := s.hash.filter fun k _ => decide (k ∉ stale) }, .sign)
  | .set m, .sign =>
    let signature := contentDigest sha256 m ++ ":" ++ name
    -- a random name does not come twice
    if signature ∈ s.issued then none
    else some ({ s with signature := some signature, issued := signature :: s.issued }, .done)
  | _, .invalidate => some ({ s with signature := none }, .done)
  | _, _ => none

/-- `_refresh_cache`: the signature, and then the hash. -/
def readStep (s : Shared) (cachedSignature : Option String) (cache : Mapping) : Option (Option String) → Proc
  | none =>
    if s.signature = none ∨ s.signature ≠ cachedSignature then .reader cachedSignature cache (some s.signature)
    else .reader cachedSignature cache none
  | some stored => .reader stored s.hash none

def refreshCache (s : Shared) (cachedSignature : Option String) (cache : Mapping) : Mapping :=
  if s.signature = none ∨ s.signature ≠ cachedSignature then s.hash else cache

def next (_ : ℕ) (s : Shared) : Proc → String → Option (Shared × Proc)
  | .writer write stage, name => (writeStep sha256 s name write stage).map fun r => (r.1, .writer write r.2)
  | .reader cachedSignature cache fetching, _ => some (s, readStep s cachedSignature cache fetching)

end

/-- When a `set` signs, the hash holds its mapping. -/
def Clear (_ : ℕ) (s : Shared) : Proc → Prop
  | .writer (.set m) .sign => Same s.hash m
  | _ => True

instance (i : ℕ) (s : Shared) (p : Proc) : Decidable (Clear i s p) := by
  unfold Clear
  split <;> infer_instance

def system (hash : Mapping) (writes : List Write) (readers : ℕ) : Conf Shared Proc :=
  ⟨⟨hash, none, []⟩, writes.map (Proc.writer · .start) ++ List.replicate readers (.reader none .empty none)⟩

/-- The arguments of the `set` calls. -/
def mappings (writes : List Write) : List Mapping :=
  writes.filterMap fun write => match write with
    | .set m => some m
    | _ => none

def Proc.pending : Proc → Bool
  | .writer _ (.hdel _) | .writer _ .sign | .writer _ .invalidate => true
  | _ => false

def Proc.idle : Proc → Bool
  | .writer _ .start | .writer _ .done | .reader _ _ _ => true
  | _ => false

def Quiet (c : Conf Shared Proc) : Prop := ∀ q ∈ c.procs, q.idle = true

instance (c : Conf Shared Proc) : Decidable (Quiet c) := inferInstanceAs (Decidable (∀ q ∈ c.procs, _))

theorem Proc.not_pending_of_idle {q : Proc} (h : q.idle = true) : q.pending = false := by
  cases q with
  | reader _ _ _ => rfl
  | writer write stage => cases stage <;> first | rfl | cases h

theorem same_of_perm (h : m.entries.Perm m'.entries) : Same m m' := by
  intro key
  ext value
  rw [KeyedTable.get_eq_some, KeyedTable.get_eq_some, h.mem_iff]

theorem entries_of_fields {l l' : List (String × Serialized)}
    (h : (l.flatMap fun entry => [entry.1.toList, entry.2.text.toList]) =
      l'.flatMap fun entry => [entry.1.toList, entry.2.text.toList]) : l = l' := by
  induction l generalizing l' with
  | nil =>
    cases l' with
    | nil => rfl
    | cons entry' rest' => cases h
  | cons entry rest ih =>
    cases l' with
    | nil => cases h
    | cons entry' rest' =>
      obtain ⟨key, value⟩ := entry
      obtain ⟨key', value'⟩ := entry'
      simp only [List.flatMap_cons, List.cons_append, List.nil_append, List.cons.injEq, String.toList_inj] at h
      obtain ⟨rfl, hvalue, hrest⟩ := h
      have heq : value = value' := by
        cases value
        cases value'
        cases hvalue
        rfl
      rw [heq, ih hrest]

theorem same_of_fingerprint (hm : ∀ key ∈ m.keys, nul ∉ key.toList) (hm' : ∀ key ∈ m'.keys, nul ∉ key.toList)
    (h : fingerprint m = fingerprint m') : Same m m' := by
  have hfields : ∀ m : Mapping, (∀ key ∈ m.keys, nul ∉ key.toList) →
      ∀ field ∈ (m.entries.insertionSort fun a b => a.1 ≤ b.1).flatMap
        (fun entry => [entry.1.toList, entry.2.text.toList]), nul ∉ field := by
    intro m hm field hfield
    obtain ⟨entry, hentry, hmem⟩ := List.mem_flatMap.1 hfield
    have hin := (List.perm_insertionSort _ m.entries).mem_iff.1 hentry
    simp only [List.mem_cons, List.not_mem_nil, or_false] at hmem
    rcases hmem with rfl | rfl
    · exact hm entry.1 (List.mem_map_of_mem hin)
    · exact entry.2.noNul
  have hlists := terminated_inj (hfields m hm) (hfields m' hm') (String.ofList_injective h)
  have hsorted := entries_of_fields hlists
  have hperm : m.entries.Perm (m'.entries.insertionSort fun a b => a.1 ≤ b.1) :=
    hsorted ▸ (List.perm_insertionSort _ _).symm
  exact same_of_perm (hperm.trans (List.perm_insertionSort _ _))

section

variable {sha256 : String → String}

theorem signs_iff (hcolon : ∀ text, ':' ∉ (sha256 text).toList) :
    Signs sha256 (contentDigest sha256 m ++ ":" ++ name) m' = true ↔
      contentDigest sha256 m' = contentDigest sha256 m := by
  rw [Signs, List.isPrefixOf_iff_prefix]
  simp only [String.toList_append]
  constructor
  · rintro ⟨rest, hrest⟩
    have hcolon' : ∀ text, ∀ c ∈ (sha256 text).toList, c ≠ ':' := fun text c hc heq => hcolon text (heq ▸ hc)
    simp only [List.append_assoc] at hrest
    obtain ⟨heq, _⟩ := NumericText.span_unique (hcolon' (fingerprint m')) (hcolon' (fingerprint m)) (by simp) (by simp)
      hrest
    exact String.toList_inj.1 heq
  · intro heq
    rw [heq]
    exact ⟨name.toList, rfl⟩

inductive Trans (sha256 : String → String) (s : Shared) : Proc → Shared → Proc → Prop where
  | keep {write : Write} {stage stage' : Stage} :
      (Proc.writer write stage).pending = false → Trans sha256 s (.writer write stage) s (.writer write stage')
  | change {write : Write} {stage stage' : Stage} (hash : Mapping) :
      (Proc.writer write stage').pending = true →
      Trans sha256 s (.writer write stage) { s with hash := hash } (.writer write stage')
  | unsign {write : Write} {stage stage' : Stage} :
      Trans sha256 s (.writer write stage) { s with signature := none } (.writer write stage')
  | sign {m : Mapping} {signature name : String} :
      signature = contentDigest sha256 m ++ ":" ++ name → signature ∉ s.issued →
      Trans sha256 s (.writer (.set m) .sign) ⟨s.hash, some signature, signature :: s.issued⟩ (.writer (.set m) .done)
  | read {cachedSignature : Option String} {cache : Mapping} {fetching : Option (Option String)} :
      Trans sha256 s (.reader cachedSignature cache fetching) s (readStep s cachedSignature cache fetching)

theorem trans_of_set (h : writeStep sha256 s name (.set m) stage = some (s', stage')) :
    Trans sha256 s (.writer (.set m) stage) s' (.writer (.set m) stage') := by
  cases stage with
  | start =>
    rw [writeStep] at h
    split at h
    · cases h
      exact .change _ rfl
    split at h
    · cases h
      exact .keep rfl
    · cases h
      exact .keep rfl
  | dropSignature =>
    cases h
    exact .unsign
  | listKeys =>
    cases h
    exact .keep rfl
  | hset stale =>
    rw [writeStep, Option.some.injEq, Prod.mk.injEq] at h
    obtain ⟨rfl, rfl⟩ := h
    refine .change _ ?_
    split <;> rfl
  | hdel stale =>
    cases h
    exact .change _ rfl
  | sign =>
    rw [writeStep] at h
    split at h
    · cases h
    · rename_i hfresh
      cases h
      exact .sign rfl hfresh
  | invalidate =>
    cases h
    exact .unsign
  | done => cases h

theorem trans_of_next (h : next sha256 i s p name = some (s', p')) : Trans sha256 s p s' p' := by
  cases p with
  | reader cachedSignature cache fetching =>
    cases h
    exact .read
  | writer write stage =>
    rw [next, Option.map_eq_some_iff] at h
    obtain ⟨⟨t, stage'⟩, h, heq⟩ := h
    cases heq
    cases write with
    | set m => exact trans_of_set h
    | setItem key value =>
      cases stage with
      | start =>
        cases h
        exact .change _ rfl
      | invalidate =>
        cases h
        exact .unsign
      | _ => cases h
    | delItem key =>
      cases stage with
      | start =>
        rw [writeStep] at h
        split at h
        · cases h
          exact .keep rfl
        · cases h
          exact .change _ rfl
      | invalidate =>
        cases h
        exact .unsign
      | _ => cases h
    | deleteMany keys =>
      cases keys with
      | nil =>
        cases stage with
        | start =>
          cases h
          exact .keep rfl
        | invalidate =>
          cases h
          exact .unsign
        | _ => cases h
      | cons key keys =>
        cases stage with
        | start =>
          cases h
          exact .change _ rfl
        | invalidate =>
          cases h
          exact .unsign
        | _ => cases h
    | clear =>
      cases stage with
      | start =>
        cases h
        exact .change _ rfl
      | invalidate =>
        cases h
        exact .unsign
      | _ => cases h

/-! ## What holds in every run -/

def Proc.seen : Proc → List String
  | .reader cachedSignature _ fetching => cachedSignature.toList ++ (fetching.bind id).toList
  | .writer _ _ => []

def Proc.CacheOf (signature : String) (hash : Mapping) : Proc → Prop
  | .reader cachedSignature cache _ => cachedSignature = some signature → Same cache hash
  | .writer _ _ => True

def Carries (sha256 : String → String) (ms : List Mapping) (signature : String) (hash : Mapping) : Prop :=
  ∃ m ∈ ms, (∃ name, signature = contentDigest sha256 m ++ ":" ++ name) ∧ Same hash m

structure Coherent (sha256 : String → String) (ms : List Mapping) (c : Conf Shared Proc) : Prop where
  /-- A signature is right, or some call is about to remove it. -/
  signed : ∀ signature, c.shared.signature = some signature →
    (∃ (j : ℕ) (q : Proc), c.procs[j]? = some q ∧ q.pending = true) ∨
      (Carries sha256 ms signature c.shared.hash ∧ ∀ q ∈ c.procs, q.CacheOf signature c.shared.hash)
  issued : ∀ signature, c.shared.signature = some signature → signature ∈ c.shared.issued
  seen : ∀ q ∈ c.procs, ∀ signature ∈ q.seen, signature ∈ c.shared.issued
  writes : ∀ m stage, Proc.writer (.set m) stage ∈ c.procs → m ∈ ms

section Step

variable {ms : List Mapping} {i : ℕ} {s s' : Shared} {ps : List Proc} {p p' : Proc}

section

variable (h : Trans sha256 s p s' p')

include h

theorem Trans.issued_subset : s.issued ⊆ s'.issued := by
  cases h with
  | sign _ _ => exact List.subset_cons_self _ _
  | _ => exact List.Subset.refl _

theorem Trans.signature_issued (hs : ∀ signature, s.signature = some signature → signature ∈ s.issued) :
    ∀ signature, s'.signature = some signature → signature ∈ s'.issued := by
  cases h with
  | keep _ => exact hs
  | change _ _ => exact hs
  | read => exact hs
  | unsign =>
    intro signature hsignature
    cases hsignature
  | sign _ _ =>
    intro signature hsignature
    cases hsignature
    exact List.mem_cons_self

theorem Trans.seen (hs : ∀ signature, s.signature = some signature → signature ∈ s.issued)
    (hp : ∀ signature ∈ p.seen, signature ∈ s.issued) : ∀ signature ∈ p'.seen, signature ∈ s'.issued := by
  cases h with
  | @read cachedSignature cache fetching =>
    intro signature hmem
    cases fetching with
    | none =>
      rw [readStep] at hmem
      split at hmem
      · rcases List.mem_append.1 hmem with hmem | hmem
        · exact hp signature (List.mem_append_left _ hmem)
        · exact hs signature (by simpa using hmem)
      · exact hp signature hmem
    | some stored =>
      rcases List.mem_append.1 hmem with hmem | hmem
      · exact hp signature (List.mem_append_right _ hmem)
      · cases hmem
  | _ =>
    intro signature hmem
    cases hmem

theorem Trans.write_eq (hp' : p' = .writer write stage') : ∃ stage, p = .writer write stage := by
  cases h with
  | @read cachedSignature cache fetching =>
    cases fetching with
    | none =>
      rw [readStep] at hp'
      split at hp' <;> cases hp'
    | some stored => cases hp'
  | _ =>
    cases hp'
    exact ⟨_, rfl⟩

end

theorem pending_of_other {j : ℕ} {q : Proc} (hp : ps[i]? = some p) (hquiet : p.pending = false) (hq : ps[j]? = some q)
    (hpending : q.pending = true) : ∃ (j : ℕ) (q : Proc), (ps.set i p')[j]? = some q ∧ q.pending = true := by
  have hij : i ≠ j := by
    rintro rfl
    rw [hp, Option.some.injEq] at hq
    rw [hq, hpending] at hquiet
    cases hquiet
  exact ⟨j, q, by rw [List.getElem?_set_ne hij]; exact hq, hpending⟩

theorem coherent_step (hc : Coherent sha256 ms ⟨s, ps⟩) (hp : ps[i]? = some p) (hclear : Clear i s p)
    (h : Trans sha256 s p s' p') : Coherent sha256 ms ⟨s', ps.set i p'⟩ := by
  have hmem := List.mem_of_getElem? hp
  obtain ⟨hlt, -⟩ := List.getElem?_eq_some_iff.1 hp
  constructor
  case issued => exact h.signature_issued hc.issued
  case seen =>
    intro q hq signature hmem'
    rcases List.mem_or_eq_of_mem_set hq with hq | rfl
    · exact h.issued_subset (hc.seen q hq signature hmem')
    · exact h.seen hc.issued (hc.seen p hmem) signature hmem'
  case writes =>
    intro m stage hq
    rcases List.mem_or_eq_of_mem_set hq with hq | heq
    · exact hc.writes m stage hq
    · obtain ⟨stage', rfl⟩ := h.write_eq heq.symm
      exact hc.writes m stage' hmem
  case signed =>
    intro signature hsignature
    cases h with
    | keep hquiet =>
      rcases hc.signed signature hsignature with ⟨j, q, hq, hpending⟩ | ⟨hcarries, hcaches⟩
      · exact .inl (pending_of_other hp hquiet hq hpending)
      · refine .inr ⟨hcarries, fun q hq => ?_⟩
        rcases List.mem_or_eq_of_mem_set hq with hq | rfl
        · exact hcaches q hq
        · trivial
    | change hash hpending => exact .inl ⟨i, _, List.getElem?_set_self hlt, hpending⟩
    | unsign => cases hsignature
    | @sign m signature' name hsigned hfresh =>
      cases hsignature
      refine .inr ⟨⟨m, hc.writes m _ hmem, ⟨name, hsigned⟩, hclear⟩, fun q hq => ?_⟩
      rcases List.mem_or_eq_of_mem_set hq with hq | rfl
      · -- nobody has seen the new signature
        cases q with
        | writer write stage => trivial
        | reader cachedSignature cache fetching =>
          rintro rfl
          exact absurd (hc.seen _ hq signature (by simp [Proc.seen])) hfresh
      · trivial
    | @read cachedSignature cache fetching =>
      rcases hc.signed signature hsignature with ⟨j, q, hq, hpending⟩ | ⟨hcarries, hcaches⟩
      · exact .inl (pending_of_other hp rfl hq hpending)
      refine .inr ⟨hcarries, fun q hq => ?_⟩
      rcases List.mem_or_eq_of_mem_set hq with hq | rfl
      · exact hcaches q hq
      cases fetching with
      | none =>
        have hold : (Proc.reader cachedSignature cache none).CacheOf signature s.hash := hcaches _ hmem
        rw [readStep]
        split <;> exact hold
      | some stored => exact fun _ key => rfl

end Step

theorem coherent_of_reaches {hash : Mapping} {ws : List Write} {readers : ℕ} {c : Conf Shared Proc}
    (hr : ReachesWhere (next sha256) Clear (system hash ws readers) c) : Coherent sha256 (mappings ws) c := by
  induction hr with
  | refl =>
    constructor
    case signed =>
      intro signature hsignature
      cases hsignature
    case issued =>
      intro signature hsignature
      cases hsignature
    case seen =>
      intro q hq signature hmem
      rcases List.mem_append.1 hq with hq | hq
      · obtain ⟨write, _, rfl⟩ := List.mem_map.1 hq
        cases hmem
      · rw [List.eq_of_mem_replicate hq] at hmem
        cases hmem
    case writes =>
      intro m stage hq
      rcases List.mem_append.1 hq with hq | hq
      · obtain ⟨write, hwrite, heq⟩ := List.mem_map.1 hq
        cases heq
        exact List.mem_filterMap.2 ⟨.set m, hwrite, rfl⟩
      · cases List.eq_of_mem_replicate hq
  | tail _ hstep ih =>
    obtain ⟨i, name, hp, hclear, hn⟩ := hstep
    exact coherent_step ih hp hclear (trans_of_next hn)

structure Digests (sha256 : String → String) (ms : List Mapping) : Prop where
  /-- A digest is a hexadecimal number. -/
  colon : ∀ text, ':' ∉ (sha256 text).toList
  /-- No two of the mappings collide. -/
  collision : ∀ m ∈ ms, ∀ m' ∈ ms, contentDigest sha256 m = contentDigest sha256 m' → fingerprint m = fingerprint m'
  keys : ∀ m ∈ ms, ∀ key ∈ m.keys, nul ∉ key.toList

theorem Carries.same (hd : Digests sha256 ms) {hash : Mapping} (hm : m ∈ ms)
    (h : Carries sha256 ms signature hash) (hsigns : Signs sha256 signature m = true) : Same hash m := by
  obtain ⟨m', hm', ⟨name, rfl⟩, hsame⟩ := h
  have hdigest := (signs_iff hd.colon).1 hsigns
  have hcontent := same_of_fingerprint (hd.keys m' hm') (hd.keys m hm) (hd.collision m' hm' m hm hdigest.symm)
  exact fun key => (hsame key).trans (hcontent key)

/-- Without a write under way, signatures tell the truth, and reads return the hash. -/
theorem signed_map_is_coherent {hash : Mapping} {ws : List Write} (hd : Digests sha256 (mappings ws)) {readers : ℕ}
    {c : Conf Shared Proc} (hr : ReachesWhere (next sha256) Clear (system hash ws readers) c) (hquiet : Quiet c) :
    (∀ signature, c.shared.signature = some signature → Carries sha256 (mappings ws) signature c.shared.hash) ∧
      (∀ m stage, Proc.writer (.set m) stage ∈ c.procs → (c.shared.signature.any fun s => Signs sha256 s m) = true →
        Same c.shared.hash m) ∧
      ∀ cachedSignature cache fetching, Proc.reader cachedSignature cache fetching ∈ c.procs →
        Same (refreshCache c.shared cachedSignature cache) c.shared.hash := by
  have hc := coherent_of_reaches hr
  have hsigned : ∀ signature, c.shared.signature = some signature →
      Carries sha256 (mappings ws) signature c.shared.hash ∧ ∀ q ∈ c.procs, q.CacheOf signature c.shared.hash := by
    intro signature hsignature
    refine (hc.signed signature hsignature).resolve_left ?_
    rintro ⟨j, q, hq, hpending⟩
    rw [Proc.not_pending_of_idle (hquiet q (List.mem_of_getElem? hq))] at hpending
    cases hpending
  refine ⟨fun signature hsignature => (hsigned signature hsignature).1, ?_, ?_⟩
  · intro m stage hmem hsigns
    obtain ⟨signature, hsignature, hsigns⟩ := (Option.any_eq_true _ _).1 hsigns
    exact (hsigned signature hsignature).1.same hd (hc.writes m stage hmem) hsigns
  intro cachedSignature cache fetching hmem
  rw [refreshCache]
  split
  · exact fun key => rfl
  · rename_i hkeep
    obtain ⟨hsome, heq⟩ := not_or.1 hkeep
    obtain ⟨signature, hsignature⟩ := Option.ne_none_iff_exists'.1 hsome
    exact (hsigned signature hsignature).2 _ hmem ((not_not.1 heq).symm.trans hsignature)

end

/-- The mapping `{'a': 1}`. -/
def one : Mapping := KeyedTable.empty.set "a" ⟨"1", by decide⟩

/-- A digest that is the real one for `one`. -/
def digestOfOne (text : String) : String :=
  if text = fingerprint one then "8bf19097aa1a235b67bc19aeb90770185deaaf102d9fdf4a1d43ed63f5fa42d3"
  else String.ofList (text.toList.filter (· ≠ ':'))

theorem digests_one : Digests digestOfOne [one] where
  colon text := by
    rw [digestOfOne]
    split
    · decide
    · simp
  collision m hm m' hm' _ := by
    rw [List.mem_singleton.1 hm, List.mem_singleton.1 hm']
  keys := by decide

theorem signed_map_is_coherent_alone : ∃ c, ReachesWhere (next digestOfOne) Clear (system .empty [.set one] 1) c ∧
      c.shared.signature = some "8bf19097aa1a235b67bc19aeb90770185deaaf102d9fdf4a1d43ed63f5fa42d3:x" ∧
      ∀ cachedSignature cache fetching, Proc.reader cachedSignature cache fetching ∈ c.procs →
        Same (refreshCache c.shared cachedSignature cache) c.shared.hash := by
  have hrun : ∃ c, Interleaving.runSchedule (fun i s p k => if Clear i s p then next digestOfOne i s p k else none)
      (system .empty [.set one] 1)
      [(0, "x"), (0, "x"), (0, "x"), (1, ""), (0, "x"), (1, ""), (0, "x"), (1, ""), (1, "")] = some c ∧ Quiet c ∧
      c.shared.signature = some "8bf19097aa1a235b67bc19aeb90770185deaaf102d9fdf4a1d43ed63f5fa42d3:x" :=
    ⟨_, rfl, by decide, by decide⟩
  obtain ⟨c, hc, hquiet, hsignature⟩ := hrun
  have hr := Interleaving.reachesWhere_of_guarded (Interleaving.reaches_of_runSchedule hc)
  exact ⟨c, hr, hsignature, (signed_map_is_coherent digests_one hr hquiet).2.2⟩

/-- A field is written while a `set` is under way. -/
theorem set_signs_a_mixture : ∃ c, Interleaving.runSchedule (next digestOfOne)
        (system .empty [.set one, .setItem "b" ⟨"2", by decide⟩, .set one] 0)
        [(0, "x"), (0, "x"), (0, "x"), (0, "x"), (1, "x"), (1, "x"), (0, "x")] = some c ∧
      Quiet c ∧ (c.shared.signature.any fun signature => Signs digestOfOne signature one) = true ∧
      ¬ Same c.shared.hash one := by
  refine ⟨_, rfl, by decide, by decide, ?_⟩
  intro h
  cases h "b"

end RyanAI.Socket.RedisDict
