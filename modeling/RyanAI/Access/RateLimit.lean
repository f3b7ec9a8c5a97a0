import RyanAI.Lib.OrderedMap
import RyanAI.Lib.JsonParse

/-!
# The rate limiter

`RateLimiter` of `utils/rate_limit.py` counts the calls for a key in buckets of time, with Redis, where a bucket
expires, or in a dictionary, from which old buckets are removed. Either way a call is limited if more than `limit` calls
for its key are in the current bucket and the `num_buckets` ones before (`recent`). No interval as long as the window
reaches further back, and thus at most `limit` calls in it are not limited.
-/

namespace RyanAI.Access.RateLimit

open RyanAI.Lib

/-- `RateLimiter`; the constructor divides by the bucket size. -/
structure RateLimiter where
  limit : ℤ
  window : ℕ
  bucketSize : ℕ
  enabled : Bool := true
  bucketSize_pos : 0 < bucketSize

/-- A call of `is_limited`, with the time of it. -/
structure Call where
  key : List Char
  time : ℚ≥0

variable (l : RateLimiter)

def RateLimiter.numBuckets : ℕ := l.window / l.bucketSize

/-- `_current_bucket`. -/
def RateLimiter.currentBucket (time : ℚ≥0) : ℤ := (⌊time⌋₊ / l.bucketSize : ℕ)

/-! ### Redis -/

structure Counter where
  hits : ℕ
  deadline : Option ℚ≥0

abbrev Redis := OrderedMap (List Char) Counter

namespace Redis

def live (now : ℚ≥0) (key : List Char) (r : Redis) : Option Counter :=
  (OrderedMap.get key r).filter fun counter => counter.deadline.all (now < ·)

/-- `INCR`. -/
def incr (now : ℚ≥0) (key : List Char) (r : Redis) : ℕ × Redis :=
  match live now key r with
  | none => (1, OrderedMap.set key ⟨1, none⟩ r)
  | some counter => (counter.hits + 1, OrderedMap.set key { counter with hits := counter.hits + 1 } r)

/-- `EXPIRE`. -/
def expire (now : ℚ≥0) (key : List Char) (seconds : ℕ) (r : Redis) : Redis :=
  match live now key r with
  | none => r
  | some counter => OrderedMap.set key { counter with deadline := some (now + seconds) } r

end Redis

def indexText : ℤ → List Char
  | .ofNat n => Nat.toDigits 10 n
  | .negSucc n => '-' :: Nat.toDigits 10 (n + 1)

/-- `_bucket_key`; the prefix of all keys and `str.lower` are parameters. -/
def bucketKey (redisKeyPrefix : List Char) (lower : List Char → List Char) (key : List Char) (index : ℤ) : List Char :=
  redisKeyPrefix ++ ":ratelimit:".toList ++ lower key ++ ':' :: indexText index

variable (redisKeyPrefix : List Char) (lower : List Char → List Char)

/-- `_is_limited_redis`. -/
def isLimitedRedis (r : Redis) (call : Call) : Bool × Redis :=
  let nowBucket := l.currentBucket call.time
  let key := bucketKey redisKeyPrefix lower call.key nowBucket
  let (attempts, r) := r.incr call.time key
  let r := if attempts = 1 then r.expire call.time key (l.window + l.bucketSize) else r
  let counts := (List.range (l.numBuckets + 1)).map fun i : ℕ =>
    (r.live call.time (bucketKey redisKeyPrefix lower call.key (nowBucket - i))).map Counter.hits
  (l.limit < (counts.map (·.getD 0)).sum, r)

abbrev Memory := KeyedTable ℤ (KeyedTable (List Char) ℕ)

/-- `_prune_memory_store`. -/
def pruneMemoryStore (nowBucket : ℤ) (m : Memory) : Memory := m.filter fun index _ => ¬ index < nowBucket - l.numBuckets

/-- `_is_limited_memory`. -/
def isLimitedMemory (m : Memory) (call : Call) : Bool × Memory :=
  let nowBucket := l.currentBucket call.time
  let m := pruneMemoryStore l nowBucket m
  let current := (m.get nowBucket).getD .empty
  let m := m.set nowBucket (current.set call.key ((current.get call.key).getD 0 + 1))
  (l.limit < (m.entries.map fun bucket => (bucket.2.get call.key).getD 0).sum, m)

/-- `is_limited`, with Redis or without it; no command fails. -/
def isLimited (stores : Option Redis × Memory) (call : Call) : Bool × Option Redis × Memory :=
  if l.enabled = false then (false, stores)
  else
    match stores.1 with
    | some r =>
      let (limited, r) := isLimitedRedis l redisKeyPrefix lower r call
      (limited, some r, stores.2)
    | none =>
      let (limited, m) := isLimitedMemory l stores.2 call
      (limited, none, m)

def verdicts (stores : Option Redis × Memory) (calls : List Call) : List Bool × Option Redis × Memory :=
  calls.foldl (fun before call =>
    let (limited, stores) := isLimited l redisKeyPrefix lower before.2 call
    (before.1 ++ [limited], stores)) ([], stores)

variable {l redisKeyPrefix lower}

def counted (l : RateLimiter) (calls : List Call) (key : List Char) (index : ℤ) : ℕ :=
  calls.countP fun call => call.key = key ∧ l.currentBucket call.time = index

def recent (l : RateLimiter) (calls : List Call) (key : List Char) (nowBucket : ℤ) : ℕ :=
  calls.countP fun call => call.key = key ∧ nowBucket - l.numBuckets ≤ l.currentBucket call.time

theorem currentBucket_mono (h : now ≤ later) : l.currentBucket now ≤ l.currentBucket later :=
  Int.ofNat_le.2 (Nat.div_le_div_right (Nat.floor_mono h))

theorem counted_append (calls : List Call) (call : Call) (key : List Char) :
    counted l (calls ++ [call]) key = fun index =>
      counted l calls key index + if call.key = key ∧ l.currentBucket call.time = index then 1 else 0 := by
  funext index
  simp [counted, List.countP_append, List.countP_singleton]

theorem sum_counted {indexes : List ℤ} (hnodup : indexes.Nodup) (calls : List Call) (key : List Char) :
    (indexes.map (counted l calls key)).sum =
      calls.countP fun call => call.key = key ∧ l.currentBucket call.time ∈ indexes := by
  induction calls using List.reverseRecOn with
  | nil =>
    have hzero : counted l [] key = fun _ => 0 := rfl
    simp [hzero]
  | append_singleton calls call ih =>
    have hone : (indexes.map fun index => if call.key = key ∧ l.currentBucket call.time = index then 1 else 0).sum =
        if call.key = key ∧ l.currentBucket call.time ∈ indexes then 1 else 0 := by
      clear ih
      induction indexes with
      | nil => simp
      | cons index indexes ih =>
        rw [List.nodup_cons] at hnodup
        rw [List.map_cons, List.sum_cons, ih hnodup.2]
        by_cases hindex : l.currentBucket call.time = index
        · subst hindex
          simp [hnodup.1]
        · simp [hindex]
    simp only [counted_append, List.sum_map_add, hone, ih, List.countP_append, List.countP_singleton, decide_eq_true_eq]

/-! ## Redis counts the recent calls -/

theorem colon_not_mem_indexText (index : ℤ) : ':' ∉ indexText index := by
  have hdigits : ∀ n, ':' ∉ Nat.toDigits 10 n := fun n h => by
    have := Nat.isDigit_of_mem_toDigits (by decide) (by decide) h
    revert this
    decide
  cases index with
  | ofNat n => exact hdigits n
  | negSucc n => simp [indexText, hdigits]

theorem toDigits_injective : Function.Injective (Nat.toDigits 10) :=
  Function.LeftInverse.injective JsonParse.decimal_toDigits

theorem indexText_injective : Function.Injective indexText := by
  have hsign : ∀ m n, Nat.toDigits 10 m ≠ '-' :: Nat.toDigits 10 n := fun m n h => by
    have hmem : '-' ∈ Nat.toDigits 10 m := h ▸ List.mem_cons_self
    have := Nat.isDigit_of_mem_toDigits (by decide) (by decide) hmem
    revert this
    decide
  intro i j h
  cases i with
  | ofNat m =>
    cases j with
    | ofNat n => exact congrArg _ (toDigits_injective h)
    | negSucc n => exact absurd h (hsign _ _)
  | negSucc m =>
    cases j with
    | ofNat n => exact absurd h.symm (hsign _ _)
    | negSucc n =>
      have hdigits := toDigits_injective (List.cons.inj h).2
      rw [Nat.succ.inj hdigits]

theorem takeWhile_bucketKey (key : List Char) (index : ℤ) :
    (bucketKey redisKeyPrefix lower key index).reverse.takeWhile (· ≠ ':') = (indexText index).reverse := by
  rw [bucketKey, List.reverse_append, List.reverse_cons, List.append_assoc, List.takeWhile_append_of_pos]
  · simp
  · intro c hc
    rw [decide_eq_true_eq]
    rintro rfl
    exact colon_not_mem_indexText index (List.mem_reverse.1 hc)

theorem bucketKey_inj (hkey : lower key = key) (hkey' : lower key' = key') :
    bucketKey redisKeyPrefix lower key i = bucketKey redisKeyPrefix lower key' j ↔ key = key' ∧ i = j := by
  constructor
  · intro h
    have hindex := congrArg (fun text => text.reverse.takeWhile (· ≠ ':')) h
    rw [takeWhile_bucketKey, takeWhile_bucketKey, List.reverse_inj] at hindex
    obtain rfl := indexText_injective hindex
    rw [bucketKey, bucketKey, List.append_cancel_right_eq, List.append_cancel_left_eq, hkey, hkey'] at h
    exact ⟨h, rfl⟩
  · rintro ⟨rfl, rfl⟩
    rfl

variable {calls : List Call} {call : Call}

def Redis.Tracks (r : Redis) (l : RateLimiter) (redisKeyPrefix : List Char) (lower : List Char → List Char)
    (calls : List Call) : Prop :=
  ∀ key index, lower key = key →
    OrderedMap.get (bucketKey redisKeyPrefix lower key index) r = none ∧ counted l calls key index = 0 ∨
    ∃ deadline : ℚ≥0, OrderedMap.get (bucketKey redisKeyPrefix lower key index) r =
        some ⟨counted l calls key index, some deadline⟩ ∧
      0 < counted l calls key index ∧ ∀ now : ℚ≥0, l.currentBucket now ≤ index + l.numBuckets → now < deadline

theorem currentBucket_add (time : ℚ≥0) (buckets : ℕ) :
    l.currentBucket (time + (buckets * l.bucketSize : ℕ)) = l.currentBucket time + buckets := by
  rw [RateLimiter.currentBucket, Nat.floor_add_natCast zero_le, Nat.add_mul_div_right _ _ l.bucketSize_pos,
    Nat.cast_add]
  rfl

theorem lt_deadline (hdvd : l.bucketSize ∣ l.window) (h : l.currentBucket now ≤ l.currentBucket first + l.numBuckets) :
    now < first + (l.window + l.bucketSize : ℕ) := by
  have hseconds : l.window + l.bucketSize = (l.numBuckets + 1) * l.bucketSize := by
    rw [Nat.succ_mul, RateLimiter.numBuckets, Nat.div_mul_cancel hdvd]
  apply lt_of_not_ge
  intro hle
  have hbucket := currentBucket_mono (l := l) hle
  rw [hseconds, currentBucket_add] at hbucket
  push_cast at hbucket
  omega

variable {r : Redis}

theorem Redis.Tracks.live (h : r.Tracks l redisKeyPrefix lower calls) {key : List Char}
    (hkey : lower key = key) {now : ℚ≥0} {index : ℤ} (hwindow : l.currentBucket now ≤ index + l.numBuckets) :
    ((r.live now (bucketKey redisKeyPrefix lower key index)).map Counter.hits).getD 0 = counted l calls key index := by
  rcases h key index hkey with ⟨hget, hzero⟩ | ⟨deadline, hget, -, hlater⟩
  · rw [Redis.live, hget, hzero]
    rfl
  · rw [Redis.live, hget]
    simp [Option.filter, hlater now hwindow]

theorem counted_append_self : counted l (calls ++ [call]) call.key (l.currentBucket call.time) =
      counted l calls call.key (l.currentBucket call.time) + 1 := by
  simp [counted_append]

theorem Redis.Tracks.set_self (hdvd : l.bucketSize ∣ l.window)
    (h : r.Tracks l redisKeyPrefix lower calls) (hcall : lower call.key = call.key) :
    ∃ deadline : ℚ≥0, (isLimitedRedis l redisKeyPrefix lower r call).2 =
        OrderedMap.set (bucketKey redisKeyPrefix lower call.key (l.currentBucket call.time))
          ⟨counted l (calls ++ [call]) call.key (l.currentBucket call.time), some deadline⟩ r ∧
      ∀ now : ℚ≥0, l.currentBucket now ≤ l.currentBucket call.time + l.numBuckets → now < deadline := by
  rw [counted_append_self]
  rcases h call.key (l.currentBucket call.time) hcall with ⟨hget, hzero⟩ | ⟨deadline, hget, hpos, hlater⟩
  · refine ⟨_, ?_, fun now => lt_deadline hdvd⟩
    simp [isLimitedRedis, Redis.incr, Redis.expire, Redis.live, hget, hzero, OrderedMap.get_set, OrderedMap.set_set,
      Option.filter]
  · have hnow := hlater call.time (by omega)
    refine ⟨deadline, ?_, hlater⟩
    simp [isLimitedRedis, Redis.incr, Redis.live, hget, Option.filter, hnow, hpos.ne']

theorem Redis.Tracks.append (hdvd : l.bucketSize ∣ l.window)
    (h : r.Tracks l redisKeyPrefix lower calls) (hcall : lower call.key = call.key) :
    (isLimitedRedis l redisKeyPrefix lower r call).2.Tracks l redisKeyPrefix lower (calls ++ [call]) := by
  obtain ⟨deadline, hset, hlater⟩ := h.set_self hdvd hcall
  intro key index hkey
  rw [hset, OrderedMap.get_set]
  split_ifs with hsame
  · obtain ⟨rfl, rfl⟩ := (bucketKey_inj hkey hcall).1 hsame
    exact .inr ⟨deadline, rfl, by rw [counted_append_self]; omega, hlater⟩
  have hother : ¬ (call.key = key ∧ l.currentBucket call.time = index) := by
    rintro ⟨rfl, rfl⟩
    exact hsame rfl
  simp only [counted_append, if_neg hother, add_zero]
  exact h key index hkey

theorem sum_window (hlate : ∀ before ∈ calls, l.currentBucket before.time ≤ l.currentBucket call.time) :
    ((List.range (l.numBuckets + 1)).map fun i : ℕ => counted l calls call.key (l.currentBucket call.time - i)).sum =
      recent l calls call.key (l.currentBucket call.time) := by
  have hnodup : ((List.range (l.numBuckets + 1)).map fun i : ℕ => l.currentBucket call.time - i).Nodup :=
    List.nodup_range.map fun i j h => by simpa using h
  have hsum := sum_counted (l := l) hnodup calls call.key
  rw [List.map_map] at hsum
  rw [recent]
  refine hsum.trans (List.countP_congr ?_)
  intro before hmem
  have hle := hlate before hmem
  simp only [List.mem_map, List.mem_range, decide_eq_true_eq]
  refine and_congr_right fun _ => ⟨?_, ?_⟩
  · rintro ⟨i, hi, heq⟩
    omega
  · intro hwindow
    exact ⟨(l.currentBucket call.time - l.currentBucket before.time).toNat, by omega, by omega⟩

theorem Redis.Tracks.verdict (hdvd : l.bucketSize ∣ l.window)
    (h : r.Tracks l redisKeyPrefix lower calls) (hcall : lower call.key = call.key)
    (hlate : ∀ before ∈ calls, before.time ≤ call.time) :
    (isLimitedRedis l redisKeyPrefix lower r call).1 =
      decide (l.limit < recent l (calls ++ [call]) call.key (l.currentBucket call.time)) := by
  have htracks := h.append hdvd hcall
  have hread : ∀ i ∈ List.range (l.numBuckets + 1),
      (((isLimitedRedis l redisKeyPrefix lower r call).2.live call.time
        (bucketKey redisKeyPrefix lower call.key (l.currentBucket call.time - i))).map Counter.hits).getD 0 =
      counted l (calls ++ [call]) call.key (l.currentBucket call.time - i) := fun i hi => by
    rw [List.mem_range] at hi
    exact htracks.live hcall (by omega)
  have hbuckets : ∀ before ∈ calls ++ [call], l.currentBucket before.time ≤ l.currentBucket call.time := by
    intro before hmem
    rcases List.mem_append.1 hmem with hbefore | hself
    · exact currentBucket_mono (hlate before hbefore)
    · rw [List.mem_singleton.1 hself]
  rw [← sum_window hbuckets, ← List.map_congr_left hread]
  simp only [isLimitedRedis, List.map_map]
  rfl

def Memory.hits (m : Memory) (key : List Char) (index : ℤ) : ℕ :=
  ((m.get index).map fun bucket => (bucket.get key).getD 0).getD 0

def Memory.Tracks (m : Memory) (l : RateLimiter) (calls : List Call) (low : ℤ) : Prop :=
  ∀ key index, low ≤ index → m.hits key index = counted l calls key index

variable {m : Memory} {low : ℤ}

theorem Memory.Tracks.append (h : m.Tracks l calls low) (hlow : low ≤ l.currentBucket call.time - l.numBuckets) :
    (isLimitedMemory l m call).2.Tracks l (calls ++ [call]) (l.currentBucket call.time - l.numBuckets) := by
  intro key index hindex
  have hbefore := h key index (hlow.trans hindex)
  have hkept : (pruneMemoryStore l (l.currentBucket call.time) m).get index = m.get index := by
    rw [pruneMemoryStore, KeyedTable.get_filter]
    cases m.get index <;> simp [Option.filter, hindex]
  simp only [isLimitedMemory, Memory.hits, KeyedTable.get_set, counted_append] at hbefore ⊢
  by_cases hbucket : index = l.currentBucket call.time
  · subst hbucket
    rw [if_pos rfl, Option.map_some, Option.getD_some, KeyedTable.get_set, hkept, ← hbefore]
    by_cases hkey : key = call.key
    · subst hkey
      cases m.get (l.currentBucket call.time) <;> simp
    · cases m.get (l.currentBucket call.time) <;> simp [hkey, Ne.symm hkey]
  · rw [if_neg hbucket, hkept, hbefore, if_neg fun h => hbucket h.2.symm, add_zero]

theorem le_of_mem_keys (h : index ∈ (isLimitedMemory l m call).2.keys) :
    l.currentBucket call.time - l.numBuckets ≤ index := by
  rw [KeyedTable.mem_keys] at h
  simp only [isLimitedMemory, KeyedTable.get_set] at h
  split_ifs at h with hbucket
  · omega
  · rw [pruneMemoryStore, KeyedTable.get_filter] at h
    obtain ⟨bucket, hbucket'⟩ := Option.isSome_iff_exists.1 h
    simpa using (Option.filter_eq_some_iff.1 hbucket').2

theorem Memory.Tracks.verdict (h : m.Tracks l calls low) (hlow : low ≤ l.currentBucket call.time - l.numBuckets) :
    (isLimitedMemory l m call).1 =
      decide (l.limit < recent l (calls ++ [call]) call.key (l.currentBucket call.time)) := by
  have htracks := h.append hlow
  have hentries : ∀ bucket ∈ (isLimitedMemory l m call).2.entries,
      (bucket.2.get call.key).getD 0 = (counted l (calls ++ [call]) call.key ∘ Prod.fst) bucket := by
    intro bucket hmem
    rw [Function.comp_apply, ← htracks call.key bucket.1 (le_of_mem_keys (List.mem_map_of_mem hmem)), Memory.hits,
      KeyedTable.get_eq_some.2 hmem]
    rfl
  have hsum := sum_counted (l := l) (KeyedTable.nodup_keys (isLimitedMemory l m call).2) (calls ++ [call]) call.key
  have hrecent : (calls ++ [call]).countP (fun before =>
      before.key = call.key ∧ l.currentBucket before.time ∈ (isLimitedMemory l m call).2.keys) =
        recent l (calls ++ [call]) call.key (l.currentBucket call.time) := by
    apply List.countP_congr
    intro before hmem
    simp only [decide_eq_true_eq]
    refine and_congr_right fun hkey => ⟨le_of_mem_keys, ?_⟩
    intro hwindow
    have hpos : 0 < counted l (calls ++ [call]) call.key (l.currentBucket before.time) :=
      List.countP_pos_iff.2 ⟨before, hmem, by simp [hkey]⟩
    rw [← htracks call.key _ hwindow, Memory.hits] at hpos
    rw [KeyedTable.mem_keys]
    cases hget : (isLimitedMemory l m call).2.get (l.currentBucket before.time) with
    | none => simp [hget] at hpos
    | some bucket => rfl
  rw [← hrecent, ← hsum, KeyedTable.keys, OrderedMap.keys, List.map_map, ← List.map_congr_left hentries]
  rfl

def notLimited (l : RateLimiter) (calls : List Call) (limited : List Bool) (key : List Char) (start : ℚ≥0) : ℕ :=
  (calls.zip limited).countP fun answer =>
    answer.1.key = key ∧ start ≤ answer.1.time ∧ answer.1.time ≤ start + l.window ∧ answer.2 = false

theorem notLimited_le_recent (hdvd : l.bucketSize ∣ l.window)
    (hlength : limited.length = calls.length) {now : ℚ≥0} (hnow : now ≤ start + l.window) (key : List Char) :
    notLimited l calls limited key start ≤ recent l calls key (l.currentBucket now) := by
  have hwindow : l.window = l.numBuckets * l.bucketSize := (Nat.div_mul_cancel hdvd).symm
  have hbucket : l.currentBucket now ≤ l.currentBucket start + l.numBuckets := by
    rw [← currentBucket_add, ← hwindow]
    exact currentBucket_mono hnow
  have hfst : (calls.zip limited).map Prod.fst = calls := List.map_fst_zip hlength.ge
  rw [recent, ← hfst, List.countP_map, hfst]
  apply List.countP_mono_left
  intro answer _ h
  simp only [decide_eq_true_eq, Function.comp_apply] at h ⊢
  have hlater := currentBucket_mono (l := l) h.2.1
  exact ⟨h.1, by omega⟩

structure Agree (l : RateLimiter) (redisKeyPrefix : List Char) (lower : List Char → List Char) (calls : List Call)
    (limited : List Bool) (r : Redis) (m : Memory) (low : ℤ) : Prop where
  redis : verdicts l redisKeyPrefix lower (some [], .empty) calls = (limited, some r, .empty)
  memory : verdicts l redisKeyPrefix lower (none, .empty) calls = (limited, none, m)
  length : limited.length = calls.length
  redisTracks : r.Tracks l redisKeyPrefix lower calls
  memoryTracks : m.Tracks l calls low
  low : ∀ now, (∀ call ∈ calls, call.time ≤ now) → low ≤ l.currentBucket now - l.numBuckets
  bound : ∀ key start, notLimited l calls limited key start ≤ l.limit.toNat

theorem Agree.append (hdvd : l.bucketSize ∣ l.window) (henabled : l.enabled = true) {limited : List Bool}
    (h : Agree l redisKeyPrefix lower calls limited r m low) (hcall : lower call.key = call.key)
    (hlate : ∀ before ∈ calls, before.time ≤ call.time) :
    Agree l redisKeyPrefix lower (calls ++ [call])
      (limited ++ [decide (l.limit < recent l (calls ++ [call]) call.key (l.currentBucket call.time))])
      (isLimitedRedis l redisKeyPrefix lower r call).2 (isLimitedMemory l m call).2
      (l.currentBucket call.time - l.numBuckets) where
  redis := by
    rw [verdicts, List.foldl_append, ← verdicts, h.redis, ← h.redisTracks.verdict hdvd hcall hlate]
    simp [isLimited, henabled]
  memory := by
    rw [verdicts, List.foldl_append, ← verdicts, h.memory, ← h.memoryTracks.verdict (h.low _ hlate)]
    simp [isLimited, henabled]
  length := by rw [List.length_append, List.length_append, h.length]; rfl
  redisTracks := h.redisTracks.append hdvd hcall
  memoryTracks := h.memoryTracks.append (h.low _ hlate)
  low now hnow := Int.sub_le_sub_right (currentBucket_mono (hnow call (by simp))) _
  bound key start := by
    have hsum : notLimited l (calls ++ [call]) (limited ++ [decide (l.limit <
        recent l (calls ++ [call]) call.key (l.currentBucket call.time))]) key start =
        notLimited l calls limited key start + if call.key = key ∧ start ≤ call.time ∧ call.time ≤ start + l.window ∧
          decide (l.limit < recent l (calls ++ [call]) call.key (l.currentBucket call.time)) = false then 1 else 0 := by
      rw [notLimited, List.zip_append h.length.symm, List.countP_append]
      simp [notLimited, List.countP_singleton]
    by_cases hcounts : call.key = key ∧ start ≤ call.time ∧ call.time ≤ start + l.window ∧
        decide (l.limit < recent l (calls ++ [call]) call.key (l.currentBucket call.time)) = false
    · obtain ⟨rfl, -, hend, hnot⟩ := hcounts
      -- the last call that is not limited was told so by the calls of the interval, all of them recent
      refine (notLimited_le_recent hdvd (by simp [h.length]) hend _).trans ?_
      rw [decide_eq_false_iff_not, not_lt] at hnot
      omega
    · rw [hsum, if_neg hcounts]
      exact h.bound key start

/-- Both variants agree, and keep to `limit` calls a window. -/
theorem backends_agree_and_limit (hdvd : l.bucketSize ∣ l.window) (henabled : l.enabled = true)
    (htimes : calls.Pairwise fun before after => before.time ≤ after.time)
    (hlower : ∀ call ∈ calls, lower call.key = call.key) :
    (verdicts l redisKeyPrefix lower (some [], .empty) calls).1 =
        (verdicts l redisKeyPrefix lower (none, .empty) calls).1 ∧
      ∀ key start, notLimited l calls (verdicts l redisKeyPrefix lower (some [], .empty) calls).1 key start ≤
        l.limit.toNat := by
  have hagree : ∃ limited r m low, Agree l redisKeyPrefix lower calls limited r m low := by
    induction calls using List.reverseRecOn with
    | nil =>
      refine ⟨[], [], .empty, -l.numBuckets, rfl, rfl, rfl, fun _ _ _ => .inl ⟨rfl, rfl⟩, fun _ _ _ => rfl, ?_,
        fun _ _ => Nat.zero_le _⟩
      intro now _
      have hbucket : 0 ≤ l.currentBucket now := Int.natCast_nonneg _
      omega
    | append_singleton calls call ih =>
      rw [List.pairwise_append] at htimes
      obtain ⟨limited, r, m, low, h⟩ := ih htimes.1 fun before hmem => hlower before (List.mem_append_left _ hmem)
      exact ⟨_, _, _, _, h.append hdvd henabled (hlower call (by simp)) fun before hmem =>
        htimes.2.2 before hmem call (List.mem_singleton_self call)⟩
  obtain ⟨limited, r, m, low, h⟩ := hagree
  rw [h.redis, h.memory]
  exact ⟨rfl, h.bound⟩

theorem backends_agree_and_limit_three :
    let l : RateLimiter := ⟨2, 120, 60, true, by decide⟩
    let calls : List Call := [⟨['a'], 0⟩, ⟨['a'], 59⟩, ⟨['a'], 120⟩]
    (verdicts l [] id (some [], .empty) calls).1 = (verdicts l [] id (none, .empty) calls).1 ∧
      ∀ key start, notLimited l calls (verdicts l [] id (some [], .empty) calls).1 key start ≤ l.limit.toNat :=
  backends_agree_and_limit (by decide) rfl (by simp; norm_num) (fun _ _ => rfl)

end RyanAI.Access.RateLimit
