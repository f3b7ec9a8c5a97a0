import RyanAI.Lib.Backtracking

/-!
# The LIKE operator

`internal/db.py` registers a `like` function with SQLite that folds the case of all letters. It compiles the pattern to
a regular expression, in which every segment between two percent signs is pinned to the first place where it is found,
and keeps at most 512 compiled patterns, among them failures. `likes` is the operator by recursion on the pattern; the
compiled one agrees with it (`compile_likes`), as a percent sign does not mind more input behind it.
-/

namespace RyanAI.Storage.Like

open RyanAI.Lib.Backtracking

/-! ## The regular expression -/

/-- `.` or an escaped character. -/
inductive Atom where
  | any
  | char (c : Char)
deriving DecidableEq

/-- With `re.DOTALL` a dot matches every character. -/
def Atom.ok : Atom → Char → Bool
  | .any, _ => true
  | .char c, x => x == c

/-- The segments of the loop are `done` and the `last` one. -/
structure Scan where
  done : List (List Atom)
  last : List Atom
  escaped : Bool

/-- `escape and char == escape`. -/
def isEscape (escape : Option String) (char : Char) : Bool := escape.any fun e => e ≠ "" && String.singleton char == e

def scanChar (escape : Option String) (s : Scan) (char : Char) : Scan :=
  if !s.escaped && isEscape escape char then { s with escaped := true }
  else if !s.escaped && char == '%' then ⟨s.done ++ [s.last], [], false⟩
  else ⟨s.done, s.last ++ [if !s.escaped && char == '_' then .any else .char char], false⟩

/-- `segments[0]`, atomic groups for `segments[1:-1]`, and the last behind `.*`. -/
def regex (segments : List (List Atom)) : Pattern Atom :=
  let groups := ((segments.drop 1).dropLast).foldl
    (fun r segment => .seq r (.atomic (.seq .lazyAny (word segment)))) (word (segments.headD []))
  if 1 < segments.length then .seq groups (.seq .greedyAny (word (segments.getLastD []))) else groups

/-- The compiled pattern; `none` stands for `False`. -/
def compile (pattern : String) (escape : Option String) : Option (Pattern Atom) :=
  let s := pattern.toList.foldl (scanChar escape) ⟨[], [], false⟩
  if s.escaped then none else some (regex (s.done ++ [s.last]))

/-- `compiled_patterns`. -/
abbrev Cache := List ((String × Option String) × Option (Pattern Atom))

def Cache.store (cache : Cache) (key : String × Option String) (compiled : Option (Pattern Atom)) : Cache :=
  (if 512 ≤ cache.length then [] else cache) ++ [(key, compiled)]

/-- `like`, with its cache; `lower` is `str.lower`, and `none` is `None`. -/
def like (lower : String → String) (cache : Cache) (pattern value : Option String)
    (escape : Option String) : Option Bool × Cache :=
  match pattern, value with
  | some pattern, some value =>
    let pattern := lower pattern
    let escape := escape.map lower
    match cache.lookup (pattern, escape) with
    | some none => (some false, cache)
    | some (some compiled) => (some (fullmatch Atom.ok compiled (lower value).toList), cache)
    | none =>
      match compile pattern escape with
      | none => (some false, cache.store (pattern, escape) none)
      | some compiled =>
        (some (fullmatch Atom.ok compiled (lower value).toList),
          cache.store (pattern, escape) (some compiled))
  | _, _ => (none, cache)

/-- An escaped character stands for itself, a trailing escape for nothing, a percent sign for any
sequence, an underscore for any character. -/
def likes (esc : Char → Bool) : List Char → List Char → Bool
  | [], value => value.isEmpty
  | c :: pattern, value =>
    if esc c then
      match pattern, value with
      | d :: pattern, x :: value => x == d && likes esc pattern value
      | _, _ => false
    else if c == '%' then value.tails.any fun rest => likes esc pattern rest
    else
      match value with
      | x :: value => (c == '_' || x == c) && likes esc pattern value
      | [] => false

/-! ## Tokens -/

inductive Token where
  | atom (a : Atom)
  | many

/-- The tokens of a pattern; `none` when it ends in an escape. -/
def tokens (esc : Char → Bool) : List Char → Option (List Token)
  | [] => some []
  | c :: pattern =>
    if esc c then
      match pattern with
      | [] => none
      | d :: pattern => (tokens esc pattern).map (.atom (.char d) :: ·)
    else if c == '%' then (tokens esc pattern).map (.many :: ·)
    else (tokens esc pattern).map (.atom (if c == '_' then .any else .char c) :: ·)

def segments : List Token → List Atom × List (List Atom)
  | [] => ([], [])
  | .atom a :: ts => (a :: (segments ts).1, (segments ts).2)
  | .many :: ts => ([], (segments ts).1 :: (segments ts).2)

def fits : List Token → List Char → Prop
  | [], value => value = []
  | .atom a :: ts, value => ∃ x rest, value = x :: rest ∧ a.ok x ∧ fits ts rest
  | .many :: ts, value => ∃ rest, rest <:+ value ∧ fits ts rest

theorem tokens_cons (esc : Char → Bool) (hesc : ¬esc c) (pattern : List Char) : tokens esc (c :: pattern) =
      if c == '%' then (tokens esc pattern).map (.many :: ·)
      else (tokens esc pattern).map (.atom (if c == '_' then .any else .char c) :: ·) := by
  rw [tokens.eq_def]
  exact if_neg hesc

theorem likes_cons (esc : Char → Bool) (hesc : ¬esc c) (pattern value : List Char) : likes esc (c :: pattern) value =
      if c == '%' then value.tails.any fun rest => likes esc pattern rest
      else
        match value with
        | x :: value => (c == '_' || x == c) && likes esc pattern value
        | [] => false := by
  rw [likes.eq_def]
  exact if_neg hesc

theorem likes_iff (esc : Char → Bool) (pattern value : List Char) :
    likes esc pattern value ↔ ∃ ts, tokens esc pattern = some ts ∧ fits ts value := by
  induction pattern, value using likes.induct esc with
  | case1 value => simp [likes, tokens, fits]
  | case2 c hesc d pattern x value ih =>
    rw [likes, if_pos hesc, tokens, if_pos hesc]
    simp only [Bool.and_eq_true, beq_iff_eq, ih, Option.map_eq_some_iff]
    constructor
    · rintro ⟨rfl, ts, hts, hfits⟩
      exact ⟨_, ⟨ts, hts, rfl⟩, x, value, rfl, by simp [Atom.ok], hfits⟩
    · rintro ⟨_, ⟨ts, hts, rfl⟩, y, rest, heq, hok, hfits⟩
      obtain ⟨rfl, rfl⟩ := List.cons.inj heq
      exact ⟨by simpa [Atom.ok] using hok, ts, hts, hfits⟩
  | case3 c pattern value hesc hno =>
    -- the escape is the last character, or nothing is left for the escaped one
    cases pattern with
    | nil => simp [likes, tokens, hesc]
    | cons d pattern =>
      cases value with
      | cons x value => exact (hno d pattern x value rfl rfl).elim
      | nil =>
        have hfalse : likes esc (c :: d :: pattern) [] = false := by
          rw [likes.eq_def]
          exact if_pos hesc
        rw [hfalse, tokens, if_pos hesc]
        refine iff_of_false (by simp) ?_
        rintro ⟨ts, hts, hfits⟩
        obtain ⟨ts', -, rfl⟩ := Option.map_eq_some_iff.1 hts
        obtain ⟨y, rest, heq, -⟩ := hfits
        cases heq
  | case4 c pattern value hesc hpercent ih =>
    -- a percent sign takes some of the value, so some suffix is left
    rw [likes_cons esc hesc, if_pos hpercent, tokens_cons esc hesc, if_pos hpercent]
    simp only [List.any_eq_true, List.mem_tails, ih, Option.map_eq_some_iff]
    constructor
    · rintro ⟨rest, hrest, ts, hts, hfits⟩
      exact ⟨_, ⟨ts, hts, rfl⟩, rest, hrest, hfits⟩
    · rintro ⟨_, ⟨ts, hts, rfl⟩, rest, hrest, hfits⟩
      exact ⟨rest, hrest, ts, hts, hfits⟩
  | case5 c pattern hesc hpercent x value ih =>
    rw [likes_cons esc hesc, if_neg hpercent, tokens_cons esc hesc, if_neg hpercent]
    -- an underscore takes any character, and any other character itself
    have hatom : (c == '_' || x == c) = (if c == '_' then Atom.any else Atom.char c).ok x := by
      by_cases hc : c == '_'
      · rw [if_pos hc, hc]
        rfl
      · rw [if_neg hc, Bool.eq_false_iff.2 hc]
        rfl
    simp only [hatom, Bool.and_eq_true, ih, Option.map_eq_some_iff]
    constructor
    · rintro ⟨hok, ts, hts, hfits⟩
      exact ⟨_, ⟨ts, hts, rfl⟩, x, value, rfl, hok, hfits⟩
    · rintro ⟨_, ⟨ts, hts, rfl⟩, y, rest, heq, hok, hfits⟩
      obtain ⟨rfl, rfl⟩ := List.cons.inj heq
      exact ⟨hok, ts, hts, hfits⟩
  | case6 c pattern hesc hpercent =>
    rw [likes_cons esc hesc, if_neg hpercent, tokens_cons esc hesc, if_neg hpercent]
    refine iff_of_false (by simp) ?_
    rintro ⟨ts, hts, hfits⟩
    obtain ⟨ts', -, rfl⟩ := Option.map_eq_some_iff.1 hts
    obtain ⟨y, rest, heq, -⟩ := hfits
    cases heq

def Scanned (done : List (List Atom)) (last : List Atom) : Option (List Token) → Scan → Prop
  | none, scan => scan.escaped = true
  | some ts, scan => ∃ done' last', scan = ⟨done', last', false⟩ ∧
      done' ++ [last'] = done ++ (last ++ (segments ts).1) :: (segments ts).2

theorem Scanned.map {t : List Token → List Token} (h : Scanned done last ts scan)
    (ht : ∀ ts, done ++ (last ++ (segments ts).1) :: (segments ts).2 =
      done' ++ (last' ++ (segments (t ts)).1) :: (segments (t ts)).2) : Scanned done' last' (ts.map t) scan := by
  cases ts with
  | none => exact h
  | some ts =>
    obtain ⟨done'', last'', hscan, hsegments⟩ := h
    exact ⟨done'', last'', hscan, hsegments.trans (ht ts)⟩

theorem foldl_scanChar (escape : Option String) (pattern : List Char) (done : List (List Atom)) (last : List Atom) :
    Scanned done last (tokens (isEscape escape) pattern)
      (pattern.foldl (scanChar escape) ⟨done, last, false⟩) := by
  induction pattern using tokens.induct (isEscape escape) generalizing done last with
  | case1 => exact ⟨done, last, rfl, by simp [segments]⟩
  | case2 c hesc =>
    rw [tokens, if_pos hesc]
    simp [Scanned, scanChar, hesc]
  | case3 c hesc d pattern ih =>
    -- an escaped character stands for itself
    have htwo : (c :: d :: pattern).foldl (scanChar escape) ⟨done, last, false⟩ =
        pattern.foldl (scanChar escape) ⟨done, last ++ [.char d], false⟩ := by
      simp [scanChar, hesc]
    rw [tokens, if_pos hesc, htwo]
    refine (ih done (last ++ [.char d])).map fun ts => ?_
    simp [segments]
  | case4 c pattern hesc hpercent ih =>
    -- a percent sign ends the segment
    have hone : (c :: pattern).foldl (scanChar escape) ⟨done, last, false⟩ =
        pattern.foldl (scanChar escape) ⟨done ++ [last], [], false⟩ := by
      rw [List.foldl_cons, scanChar]
      simp [hesc, hpercent]
    rw [tokens_cons _ hesc, if_pos hpercent, hone]
    refine (ih (done ++ [last]) []).map fun ts => ?_
    simp [segments]
  | case5 c pattern hesc hpercent ih =>
    have hone : (c :: pattern).foldl (scanChar escape) ⟨done, last, false⟩ =
        pattern.foldl (scanChar escape)
          ⟨done, last ++ [if c == '_' then .any else .char c], false⟩ := by
      rw [List.foldl_cons, scanChar]
      simp [hesc, hpercent]
    rw [tokens_cons _ hesc, if_neg hpercent, hone]
    refine (ih done (last ++ [if c == '_' then .any else .char c])).map fun ts => ?_
    simp [segments]

def Behind : List (List Atom) → List Char → Prop
  | [], value => value = []
  | s :: rest, value => Matches Atom.ok (.seq .lazyAny (word s)) value (Behind rest)

theorem matches_word_cons {K : List Char → Prop} : Matches Atom.ok (word (a :: as)) value K ↔
      ∃ x rest, value = x :: rest ∧ a.ok x ∧ Matches Atom.ok (word as) rest K := by
  rw [word, matches_seq]
  cases value with
  | nil => simp [Matches, rests]
  | cons x value =>
    by_cases hok : a.ok x <;> simp [Matches, rests, hok]

theorem fits_iff (ts : List Token) (value : List Char) :
    fits ts value ↔ Matches Atom.ok (word (segments ts).1) value (Behind (segments ts).2) := by
  induction ts generalizing value with
  | nil => exact (matches_empty Atom.ok).symm
  | cons t ts ih =>
    cases t with
    | atom a =>
      rw [segments, matches_word_cons]
      simp only [fits, ih]
    | many =>
      rw [segments, word, matches_empty, Behind, matches_seq, matches_lazyAny]
      simp only [fits, List.mem_tails, ih]

theorem extensible_behind (s : List Atom) (rest : List (List Atom)) : Extensible (Behind (s :: rest)) := by
  intro y z hzy h
  rw [Behind, matches_seq, matches_lazyAny] at h ⊢
  obtain ⟨t, ht, hmatch⟩ := h
  rw [List.mem_tails] at ht
  exact ⟨t, (List.mem_tails _ _).2 (ht.trans hzy), hmatch⟩

theorem matches_groups (middle : List (List Atom)) (last : List Atom) (r : Pattern Atom) (value : List Char) :
    Matches Atom.ok (middle.foldl (fun r s => .seq r (.atomic (.seq .lazyAny (word s)))) r) value
        (Behind [last]) ↔
      Matches Atom.ok r value (Behind (middle ++ [last])) := by
  induction middle generalizing r with
  | nil => rfl
  | cons s middle ih =>
    rw [List.foldl_cons, ih, matches_seq]
    -- what comes behind a group starts with a percent sign
    have hext : Extensible (Behind (middle ++ [last])) := by
      cases middle with
      | nil => exact extensible_behind last []
      | cons s' middle => exact extensible_behind s' (middle ++ [last])
    simp only [matches_first_word_iff Atom.ok hext]
    rfl

/-- A greedy `.*` in front of the last segment is as good as a lazy one. -/
theorem matches_last (last : List Atom) (value : List Char) :
    Matches Atom.ok (.seq .greedyAny (word last)) value (· = []) ↔ Behind [last] value := by
  rw [Behind, matches_seq, matches_seq, matches_greedyAny, matches_lazyAny]
  rfl

theorem fullmatch_regex (first : List Atom) (rest : List (List Atom)) (value : List Char) :
    fullmatch Atom.ok (regex (first :: rest)) value ↔ Matches Atom.ok (word first) value (Behind rest) := by
  rw [fullmatch_iff]
  rcases List.eq_nil_or_concat' rest with rfl | ⟨middle, last, rfl⟩
  · rfl
  have hregex : regex (first :: (middle ++ [last])) =
      .seq (middle.foldl (fun r s => .seq r (.atomic (.seq .lazyAny (word s)))) (word first))
        (.seq .greedyAny (word last)) := by
    have hlast : (first :: (middle ++ [last])).getLastD [] = last := by
      rw [← List.cons_append, List.getLastD_concat]
    rw [regex, hlast, if_pos (by simp), List.drop_succ_cons, List.drop_zero, List.dropLast_concat]
    rfl
  rw [hregex, matches_seq]
  simp only [matches_last]
  exact matches_groups middle last (word first) value

theorem compile_likes (pattern : String) (escape : Option String) (value : List Char) :
    likes (isEscape escape) pattern.toList value =
      (compile pattern escape).elim false fun r => fullmatch Atom.ok r value := by
  rw [Bool.eq_iff_iff, likes_iff]
  have hscan := foldl_scanChar escape pattern.toList [] []
  cases hts : tokens (isEscape escape) pattern.toList with
  | none =>
    rw [hts] at hscan
    have hescaped : (pattern.toList.foldl (scanChar escape) ⟨[], [], false⟩).escaped = true := hscan
    simp [compile, hescaped]
  | some ts =>
    rw [hts] at hscan
    obtain ⟨done, last, hfold, hsegments⟩ := hscan
    rw [List.nil_append, List.nil_append] at hsegments
    have hcompile : compile pattern escape = some (regex ((segments ts).1 :: (segments ts).2)) := by
      simp [compile, hfold, hsegments]
    simp only [hcompile, Option.elim_some, fullmatch_regex, ← fits_iff, Option.some.injEq, exists_eq_left']

def Cache.Faithful (cache : Cache) : Prop := ∀ entry ∈ cache, entry.2 = compile entry.1.1 entry.1.2

theorem Cache.Faithful.store {cache : Cache} (h : cache.Faithful) (pattern : String)
    (escape : Option String) : (cache.store (pattern, escape) (compile pattern escape)).Faithful := by
  intro entry hentry
  rcases List.mem_append.1 hentry with hold | hnew
  · split at hold
    · cases hold
    · exact h entry hold
  · rw [List.mem_singleton.1 hnew]

theorem Cache.Faithful.lookup {cache : Cache} (h : cache.Faithful) {key : String × Option String}
    {compiled : Option (Pattern Atom)} (hlookup : cache.lookup key = some compiled) :
    compiled = compile key.1 key.2 := by
  induction cache with
  | nil => cases hlookup
  | cons entry rest ih =>
    rw [List.lookup_cons] at hlookup
    split at hlookup
    · rename_i heq
      cases hlookup
      rw [beq_iff_eq.1 heq]
      exact h entry List.mem_cons_self
    · exact ih (List.forall_mem_of_forall_mem_cons h) hlookup

theorem like_spec (lower : String → String) {cache : Cache} (h : cache.Faithful)
    (pattern value escape : Option String) :
    (like lower cache pattern value escape).1 = (pattern.bind fun p => value.map fun v =>
        likes (isEscape (escape.map lower)) (lower p).toList (lower v).toList) ∧
      (like lower cache pattern value escape).2.Faithful := by
  cases pattern with
  | none => exact ⟨rfl, h⟩
  | some p =>
    cases value with
    | none => exact ⟨rfl, h⟩
    | some v =>
      simp only [like, Option.bind_some, Option.map_some, compile_likes]
      cases hlookup : cache.lookup (lower p, escape.map lower) with
      | some compiled =>
        have hcompiled := h.lookup hlookup
        cases compiled with
        | none => exact ⟨by rw [← hcompiled]; rfl, h⟩
        | some r => exact ⟨by rw [← hcompiled]; rfl, h⟩
      | none =>
        have hstore := h.store (lower p) (escape.map lower)
        cases hcompile : compile (lower p) (escape.map lower) with
        | none =>
          rw [hcompile] at hstore
          exact ⟨rfl, hstore⟩
        | some r =>
          rw [hcompile] at hstore
          exact ⟨rfl, hstore⟩

def afterCalls (lower : String → String) (calls : List (Option String × Option String × Option String)) : Cache :=
  calls.foldl (fun cache call => (like lower cache call.1 call.2.1 call.2.2).2) []

theorem faithful_afterCalls (lower : String → String)
    (calls : List (Option String × Option String × Option String)) : (afterCalls lower calls).Faithful := by
  have general : ∀ cache : Cache, cache.Faithful →
      (calls.foldl (fun cache call => (like lower cache call.1 call.2.1 call.2.2).2) cache).Faithful := by
    induction calls with
    | nil => exact fun _ h => h
    | cons call calls ih => exact fun cache h => ih _ (like_spec lower h call.1 call.2.1 call.2.2).2
  exact general [] fun _ h => by cases h

/-- `like` is the operator on the folded arguments, and `None` on `None`. -/
theorem like_exact (lower : String → String)
    (calls : List (Option String × Option String × Option String)) (pattern value escape : Option String) :
    (like lower (afterCalls lower calls) pattern value escape).1 =
      pattern.bind fun p => value.map fun v =>
        likes (isEscape (escape.map lower)) (lower p).toList (lower v).toList :=
  (like_spec lower (faithful_afterCalls lower calls) pattern value escape).1

end RyanAI.Storage.Like
