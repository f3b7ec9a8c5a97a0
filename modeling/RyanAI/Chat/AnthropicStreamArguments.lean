import RyanAI.Chat.AnthropicStreamShape

/-!
# The arguments of tool calls in an Anthropic stream

The stream carries fragments of arguments in the deltas with the id of a call, or without an id at its index. Emitted
are the fragments in the deltas of its block, which is started when the call has a name and stopped once the arguments
are complete JSON. So for a stream without an error, what is emitted for the named calls is what is carried for them, up
to white space at the end, exactly if nothing is carried before the name and nothing but white space after the
arguments are complete (`arguments_conserved_iff`).
-/

namespace RyanAI.Chat.AnthropicStream

open Lib Lib.NumericText

/-! ## What is carried -/

structure Part where
  name : Json
  text : String

def textOf (parts : List Part) : String := String.join (parts.map Part.text)

def Part.named (part : Part) : Bool := part.name.truthy

def rstrip (text : String) : List Char := text.toList.rdropWhile stripSpace

def Blank (text : String) : Prop := ∀ c ∈ text.toList, stripSpace c = true

section Carried

variable (loads : String → Except LoadError Json)

def complete (text : String) : Bool := mayBeComplete text.toList && (loads text).toOption.isSome

structure Conserving (parts : List Part) : Prop where
  early : textOf (parts.takeWhile fun part => !part.named) = "" ∨ Blank (textOf parts)
  late : ∀ earlier rest, parts = earlier ++ rest → earlier.any Part.named = true → textOf earlier ≠ "" →
    complete loads (textOf earlier) = true → Blank (textOf rest)

structure Carried where
  named : Bool
  text : String
  sent : String
  closed : Bool

namespace Carried

def empty : Carried := ⟨false, "", "", false⟩

def name (value : Json) (c : Carried) : Carried := { c with named := c.named || value.truthy }

def append (text : String) (c : Carried) : Carried :=
  { c with
    text := c.text ++ text
    sent := if c.named && !c.closed then c.sent ++ text else c.sent }

def close (c : Carried) : Carried := { c with closed := c.closed || (c.named && complete loads c.text) }

def addText (text : String) (c : Carried) : Carried := if text = "" then c else (c.append text).close loads

def add (c : Carried) (part : Part) : Carried := (c.name part.name).addText loads part.text

def after (parts : List Part) : Carried := parts.foldl (add loads) empty

end Carried

theorem rstrip_eq_nil : rstrip text = [] ↔ Blank text := List.rdropWhile_eq_nil_iff

theorem Blank.append {a b : String} : Blank (a ++ b) ↔ Blank a ∧ Blank b := by
  simp only [Blank, String.toList_append, List.mem_append, or_imp, forall_and]

theorem rstrip_append_of_blank (h : Blank b) : rstrip (a ++ b) = rstrip a := by
  have hdrop : ∀ l m : List Char, (∀ c ∈ m, stripSpace c = true) →
      (l ++ m).rdropWhile stripSpace = l.rdropWhile stripSpace := by
    intro l m
    induction m using List.reverseRecOn with
    | nil =>
      intro _
      rw [List.append_nil]
    | append_singleton m c ih =>
      intro hm
      rw [← List.append_assoc, List.rdropWhile_concat_pos _ _ _ (hm c (by simp))]
      exact ih fun c' hc' => hm c' (List.mem_append_left _ hc')
  rw [rstrip, String.toList_append]
  exact hdrop _ _ h

theorem rstrip_append_of_not_blank (h : ¬ Blank b) : rstrip (a ++ b) = a.toList ++ rstrip b := by
  have hdrop : ∀ l m : List Char, ¬ (∀ c ∈ m, stripSpace c = true) →
      (l ++ m).rdropWhile stripSpace = l ++ m.rdropWhile stripSpace := by
    intro l m
    induction m using List.reverseRecOn with
    | nil => simp
    | append_singleton m c ih =>
      intro hm
      rw [← List.append_assoc]
      by_cases hc : stripSpace c = true
      · rw [List.rdropWhile_concat_pos _ _ _ hc, List.rdropWhile_concat_pos _ _ _ hc]
        apply ih
        intro hall
        apply hm
        intro c' hc'
        rcases List.mem_append.1 hc' with hc' | hc'
        · exact hall c' hc'
        · rw [List.mem_singleton.1 hc']
          exact hc
      · rw [List.rdropWhile_concat_neg _ _ _ hc, List.rdropWhile_concat_neg _ _ _ hc, List.append_assoc]
  rw [rstrip, String.toList_append]
  exact hdrop _ _ h

theorem length_rstrip_le (text : String) : (rstrip text).length ≤ text.toList.length :=
  List.IsPrefix.length_le (List.rdropWhile_prefix stripSpace text.toList)

theorem rstrip_middle_iff (early sent late : String) : rstrip sent = rstrip (early ++ sent ++ late) ↔
      (early = "" ∧ Blank late) ∨ Blank (early ++ sent ++ late) := by
  constructor
  · intro h
    by_cases hall : Blank (early ++ sent ++ late)
    · exact Or.inr hall
    refine Or.inl ?_
    have hlate : Blank late := by
      by_contra hlate
      have hlength := length_rstrip_le sent
      rw [h, rstrip_append_of_not_blank hlate, List.length_append, String.toList_append, List.length_append] at hlength
      have hpos : rstrip late ≠ [] := fun hnil => hlate (rstrip_eq_nil.1 hnil)
      have hpos' := List.length_pos_of_ne_nil hpos
      omega
    refine ⟨?_, hlate⟩
    have hsent : ¬ Blank sent := by
      intro hsent
      rw [rstrip_eq_nil.2 hsent] at h
      exact hall (rstrip_eq_nil.1 h.symm)
    rw [rstrip_append_of_blank hlate, rstrip_append_of_not_blank hsent] at h
    have hlength := congrArg List.length h
    rw [List.length_append] at hlength
    have hnil : early.toList = [] := List.length_eq_zero_iff.1 (by omega)
    rw [← String.toList_inj, hnil]
    rfl
  · rintro (⟨rfl, hlate⟩ | hall)
    · rw [String.empty_append, rstrip_append_of_blank hlate]
    · rw [rstrip_eq_nil.2 hall]
      exact rstrip_eq_nil.2 (Blank.append.1 (Blank.append.1 hall).1).2

/-! ### The parts of a call -/

theorem textOf_append (parts rest : List Part) : textOf (parts ++ rest) = textOf parts ++ textOf rest := by
  rw [textOf, List.map_append, String.join_append, textOf, textOf]

theorem textOf_singleton (part : Part) : textOf [part] = part.text := by
  simp [textOf]

def earlyText (parts : List Part) : String := textOf (parts.takeWhile fun part => !part.named)

theorem earlyText_append (h : parts.any Part.named = true) (rest : List Part) :
    earlyText (parts ++ rest) = earlyText parts := by
  rw [earlyText, earlyText, List.takeWhile_append, if_neg]
  intro hlength
  obtain ⟨part, hmem, hnamed⟩ := List.any_eq_true.1 h
  have heq : parts.takeWhile (fun part => !part.named) = parts :=
    List.IsPrefix.eq_of_length (List.takeWhile_prefix _) hlength
  have hnot := List.mem_takeWhile_imp (heq ▸ hmem)
  simp [hnamed] at hnot

structure Accounts (parts : List Part) (c : Carried) : Prop where
  named : c.named = parts.any Part.named
  text : c.text = textOf parts
  unsent : c.named = false → c.sent = "" ∧ c.closed = false
  unclosed : c.named = true → c.closed = false → c.text = earlyText parts ++ c.sent
  incomplete : c.named = true → c.closed = false → earlyText parts = "" → c.text = "" ∨ complete loads c.text = false
  closedAt : c.closed = true → ∃ earlier rest, parts = earlier ++ rest ∧ earlier.any Part.named = true ∧
    textOf earlier = earlyText parts ++ c.sent ∧ textOf earlier ≠ "" ∧ complete loads (textOf earlier) = true

variable {loads}

theorem accounts_nil : Accounts loads [] Carried.empty := by
  refine ⟨rfl, rfl, fun _ => ⟨rfl, rfl⟩, ?_, ?_, ?_⟩
  · intro h
    cases h
  · intro h
    cases h
  · intro h
    cases h

namespace Carried

theorem add_of_empty (c : Carried) (h : part.text = "") : c.add loads part = c.name part.name := by
  rw [add, addText, if_pos h]

theorem add_of_text (c : Carried) {part : Part} (h : part.text ≠ "") :
    c.add loads part = ((c.name part.name).append part.text).close loads := by
  rw [add, addText, if_neg h]

theorem add_named (c : Carried) (part : Part) : (c.add loads part).named = (c.named || part.named) := by
  rw [add, addText]
  split <;> rfl

theorem add_text (c : Carried) (part : Part) : (c.add loads part).text = c.text ++ part.text := by
  rw [add, addText]
  split
  · rename_i h
    rw [h, String.append_empty]
    rfl
  · rfl

theorem add_of_closed {c : Carried} (h : c.closed = true) (part : Part) :
    (c.add loads part).closed = true ∧ (c.add loads part).sent = c.sent := by
  rw [add, addText]
  split
  · exact ⟨h, rfl⟩
  · simp [close, append, name, h]

end Carried

theorem Accounts.add (h : Accounts loads parts c) (part : Part) :
    Accounts loads (parts ++ [part]) (c.add loads part) := by
  have hnamed : (c.add loads part).named = (parts ++ [part]).any Part.named := by
    rw [Carried.add_named, h.named, List.any_append]
    simp
  have htext : (c.add loads part).text = textOf (parts ++ [part]) := by
    rw [Carried.add_text, h.text, textOf_append, textOf_singleton]
  -- before this part, or with it, the call was named
  have hearly : (c.add loads part).named = true →
      earlyText (parts ++ [part]) = if c.named then earlyText parts else c.text := by
    intro hn
    cases hc : c.named with
    | true => rw [if_pos rfl, earlyText_append (h.named ▸ hc)]
    | false =>
      have hpart : part.named = true := by
        rw [Carried.add_named, hc] at hn
        exact hn
      have hall : ∀ p ∈ parts, (!p.named) = true := by
        intro p hp
        have hany : parts.any Part.named = false := by rw [← h.named, hc]
        simpa using List.any_eq_false.1 hany p hp
      rw [if_neg (by decide), earlyText, List.takeWhile_append_of_pos hall, h.text]
      simp [hpart]
  refine ⟨hnamed, htext, ?_, ?_, ?_, ?_⟩
  · intro hn
    rw [Carried.add_named] at hn
    obtain ⟨hc, hp⟩ := Bool.or_eq_false_iff.1 hn
    obtain ⟨hsent, hclosed⟩ := h.unsent hc
    by_cases hempty : part.text = ""
    · rw [Carried.add_of_empty c hempty]
      exact ⟨hsent, hclosed⟩
    · have hp' : part.name.truthy = false := hp
      rw [Carried.add_of_text c hempty]
      simp [Carried.close, Carried.append, Carried.name, hc, hp', hsent, hclosed]
  · intro hn hclosed
    rw [hearly hn]
    by_cases hempty : part.text = ""
    · rw [Carried.add_of_empty c hempty] at hclosed ⊢
      have hc' : c.closed = false := hclosed
      cases hc : c.named with
      | true => exact h.unclosed hc hc'
      | false =>
        show c.text = c.text ++ c.sent
        rw [(h.unsent hc).1, String.append_empty]
    · rw [Carried.add_of_text c hempty] at hn hclosed ⊢
      have hc' : c.closed = false := (Bool.or_eq_false_iff.1 hclosed).1
      have hn' : (c.name part.name).named = true := hn
      have hsent : ((c.name part.name).append part.text).sent = c.sent ++ part.text := by
        rw [Carried.append, hn', show (c.name part.name).closed = false from hc']
        rfl
      show c.text ++ part.text = _ ++ ((c.name part.name).append part.text).sent
      rw [hsent]
      cases hc : c.named with
      | true => rw [if_pos rfl, h.unclosed hc hc', String.append_assoc]
      | false => rw [if_neg (by decide), (h.unsent hc).1, String.empty_append]
  · intro hn hclosed hnone
    by_cases hempty : part.text = ""
    · rw [hearly hn] at hnone
      rw [Carried.add_of_empty c hempty] at hclosed ⊢
      cases hc : c.named with
      | true =>
        rw [hc, if_pos rfl] at hnone
        exact h.incomplete hc hclosed hnone
      | false =>
        rw [hc, if_neg (by decide)] at hnone
        exact Or.inl hnone
    · rw [Carried.add_of_text c hempty] at hn hclosed ⊢
      have hand := (Bool.or_eq_false_iff.1 hclosed).2
      have hn' : ((c.name part.name).append part.text).named = true := hn
      rw [hn', Bool.true_and] at hand
      exact Or.inr hand
  · intro hclosed
    cases hc : c.closed with
    | true =>
      obtain ⟨earlier, rest, rfl, hany, htext', hne, hcomplete⟩ := h.closedAt hc
      refine ⟨earlier, rest ++ [part], by rw [List.append_assoc], hany, ?_, hne, hcomplete⟩
      rw [(Carried.add_of_closed hc part).2, List.append_assoc, earlyText_append hany, htext', earlyText_append hany]
    | false =>
      -- the block is stopped with this part
      have hempty : part.text ≠ "" := by
        intro hempty
        rw [Carried.add_of_empty c hempty] at hclosed
        rw [show (c.name part.name).closed = c.closed from rfl, hc] at hclosed
        cases hclosed
      have heq := @Carried.add_of_text loads c part hempty
      have hand : ((c.name part.name).append part.text).named = true ∧
          complete loads ((c.name part.name).append part.text).text = true := by
        rw [heq] at hclosed
        have hor : (c.closed || (((c.name part.name).append part.text).named &&
          complete loads ((c.name part.name).append part.text).text)) = true := hclosed
        rw [hc, Bool.false_or] at hor
        exact Bool.and_eq_true_iff.1 hor
      have hn : (c.add loads part).named = true := by
        rw [heq]
        exact hand.1
      have hsent : (c.add loads part).sent = c.sent ++ part.text := by
        rw [heq]
        have hn' : (c.name part.name).named = true := hand.1
        rw [Carried.append, hn', show (c.name part.name).closed = false from hc]
        rfl
      have hwhole : textOf (parts ++ [part]) = c.text ++ part.text := by rw [← htext, Carried.add_text]
      refine ⟨parts ++ [part], [], by rw [List.append_nil], hnamed ▸ hn, ?_, ?_, ?_⟩
      · rw [hearly hn, hwhole, hsent]
        cases hcn : c.named with
        | true => rw [if_pos rfl, h.unclosed hcn hc, String.append_assoc]
        | false => rw [if_neg (by decide), (h.unsent hcn).1, String.empty_append]
      · rw [hwhole]
        intro hnil
        rw [← String.toList_inj, String.toList_append] at hnil
        exact hempty (String.toList_inj.1 (List.append_eq_nil_iff.1 hnil).2)
      · rw [hwhole]
        exact hand.2

theorem accounts_after (parts : List Part) : Accounts loads parts (Carried.after loads parts) := by
  induction parts using List.reverseRecOn with
  | nil => exact accounts_nil
  | append_singleton parts part ih =>
    rw [Carried.after, List.foldl_append]
    exact ih.add part

theorem foldl_of_closed (h : c.closed = true) (parts : List Part) :
    (parts.foldl (Carried.add loads) c).closed = true ∧ (parts.foldl (Carried.add loads) c).sent = c.sent := by
  induction parts generalizing c with
  | nil => exact ⟨h, rfl⟩
  | cons part rest ih =>
    obtain ⟨hclosed, hsent⟩ := @Carried.add_of_closed loads c h part
    obtain ⟨hclosed', hsent'⟩ := ih hclosed
    exact ⟨hclosed', hsent'.trans hsent⟩

theorem rstrip_sent_iff (hnamed : parts.any Part.named = true) :
    rstrip (Carried.after loads parts).sent = rstrip (textOf parts) ↔ Conserving loads parts := by
  have hall := @accounts_after loads parts
  have hn : (Carried.after loads parts).named = true := hall.named.trans hnamed
  obtain ⟨late, htext, hlate⟩ : ∃ late, textOf parts = earlyText parts ++ (Carried.after loads parts).sent ++ late ∧
      ((∀ earlier rest, parts = earlier ++ rest → earlier.any Part.named = true → textOf earlier ≠ "" →
        complete loads (textOf earlier) = true → Blank (textOf rest)) → Blank late) := by
    cases hclosed : (Carried.after loads parts).closed with
    | false =>
      refine ⟨"", ?_, ?_⟩
      · rw [String.append_empty, ← hall.text]
        exact hall.unclosed hn hclosed
      · intro _ c hc
        cases hc
    | true =>
      obtain ⟨earlier, rest, heq, hany, htext, hne, hcomplete⟩ := hall.closedAt hclosed
      refine ⟨textOf rest, ?_, fun h => h earlier rest heq hany hne hcomplete⟩
      rw [← htext, ← textOf_append, ← heq]
  rw [htext, rstrip_middle_iff]
  constructor
  · rintro (⟨hearly, hblank⟩ | hblank)
    · refine ⟨Or.inl hearly, ?_⟩
      rintro earlier rest rfl hany hne hcomplete
      -- the block was stopped at the latest here, and what follows is late
      have hfirst := @accounts_after loads earlier
      have hearly' : earlyText earlier = "" := by rw [← hearly, earlyText_append hany]
      have hclosed : (Carried.after loads earlier).closed = true := by
        by_contra hopen
        rcases hfirst.incomplete (hfirst.named.trans hany) (Bool.eq_false_iff.2 hopen) hearly' with hnil | hnot
        · exact hne (hfirst.text ▸ hnil)
        · rw [hfirst.text, hcomplete] at hnot
          cases hnot
      have hsent : (Carried.after loads (earlier ++ rest)).sent = (Carried.after loads earlier).sent := by
        rw [Carried.after, List.foldl_append]
        exact (foldl_of_closed hclosed rest).2
      obtain ⟨part, tail, heq, hany', htext', -, -⟩ := hfirst.closedAt hclosed
      have hcut : textOf (earlier ++ rest) = (Carried.after loads earlier).sent ++ (textOf tail ++ textOf rest) := by
        rw [textOf_append, heq, textOf_append, htext', hearly', String.empty_append, String.append_assoc, ← heq]
      rw [hearly, String.empty_append, hsent, hcut] at htext
      have hlate' : late = textOf tail ++ textOf rest := by
        have hlist := congrArg String.toList htext
        simp only [String.toList_append] at hlist
        rw [← String.toList_inj, String.toList_append]
        exact (List.append_cancel_left hlist).symm
      rw [hlate'] at hblank
      exact (Blank.append.1 hblank).2
    · rw [← htext] at hblank
      refine ⟨Or.inr hblank, ?_⟩
      rintro earlier rest rfl - - -
      rw [textOf_append] at hblank
      exact (Blank.append.1 hblank).2
  · intro h
    rcases h.early with hearly | hblank
    · exact Or.inl ⟨hearly, hlate h.late⟩
    · exact Or.inr (htext ▸ hblank)

end Carried

/-! ## Which call a delta belongs to -/

structure Piece where
  key : ToolKey
  part : Part

structure Routing where
  lastAt : OrderedMap Key ToolKey
  fallbacks : ℕ

def Routing.route (id : Option Key) (index : Key) (r : Routing) : ToolKey × Routing :=
  match id with
  | some key => (.given key, { r with lastAt := r.lastAt.set index (.given key) })
  | none =>
    match r.lastAt.get index with
    | some key => (key, r)
    | none => (.fallback r.fallbacks, ⟨r.lastAt.set index (.fallback r.fallbacks), r.fallbacks + 1⟩)

def idOf (id : Json) : Except Raised (Option Key) := do
  if id.truthy then
    let key ← keyOf id
    return some key
  else return none

def fragmentOf (arguments : Json) : Except Raised String :=
  if arguments.truthy then
    match arguments with
    | .str text => .ok text
    | _ => .error .typeError
  else .ok ""

def pieceOf (r : Routing) (value : Json) : Except Raised (Piece × Routing) := do
  let call ← readToolCall value
  let id ← idOf call.id
  let index ← keyOf call.index
  let text ← fragmentOf call.arguments
  return (⟨(r.route id index).1, ⟨call.name, text⟩⟩, (r.route id index).2)

def addPiece (pieces : List Piece × Routing) (value : Json) : Except Raised (List Piece × Routing) := do
  let piece ← pieceOf pieces.2 value
  return (pieces.1 ++ [piece.1], piece.2)

def piecesOf (calls : List Json) : Except Raised (List Piece × Routing) := calls.foldlM addPiece ([], ⟨[], 0⟩)

def partsOf (key : ToolKey) (pieces : List Piece) : List Part :=
  (pieces.filter fun piece => piece.key = key).map Piece.part

def callsOfChoice (choice : Json) : Except Raised (List Json) := do
  let delta ← getOr "delta" (.obj []) choice
  let message ← choice.get "message"
  let calls ← toolCallsOf delta (message.orElse (.obj []))
  if calls.truthy then iterate calls else return []

def callsOf (data : Json) : Except Raised (List Json) := do
  let choices ← getOr "choices" (.arr []) data
  if choices.truthy then
    let choice ← firstItem choices
    callsOfChoice choice
  else return []

section Carrying

variable (loads : String → Except LoadError Json)

def callsOfLine (line : List Char) : List Json :=
  match dataOf line with
  | none => []
  | some text =>
    match loads text with
    | .ok data => (callsOf data).toOption.getD []
    | .error _ => []

def callsIn (chunks : List String) : List Json := (chunks.flatMap linesOf).flatMap (callsOfLine loads)

def partsIn (chunks : List String) (key : ToolKey) : List Part :=
  partsOf key (((piecesOf (callsIn loads chunks)).map Prod.fst).toOption.getD [])

def ledgerOf (pieces : List Piece) (key : ToolKey) : Carried := Carried.after loads (partsOf key pieces)

theorem ledgerOf_append (pieces : List Piece) (piece : Piece) : ledgerOf loads (pieces ++ [piece]) =
      Function.update (ledgerOf loads pieces) piece.key ((ledgerOf loads pieces piece.key).add loads piece.part) := by
  funext key
  rw [Function.update_apply, ledgerOf, partsOf, List.filter_append, List.map_append]
  split
  · rename_i hkey
    subst hkey
    rw [List.filter_singleton, decide_eq_true rfl, cond_true, Carried.after, List.foldl_append]
    rfl
  · rename_i hkey
    have hne : ¬ piece.key = key := fun heq => hkey heq.symm
    rw [List.filter_singleton, decide_eq_false hne, cond_false, List.map_nil, List.append_nil]
    rfl

theorem piecesOf_append (calls : List Json) (value : Json) :
    piecesOf (calls ++ [value]) = piecesOf calls >>= fun pieces => addPiece pieces value := by
  rw [piecesOf, List.foldlM_append, piecesOf]
  simp

end Carrying

/-! ## What is emitted -/

def ToolId.key : ToolId → Option ToolKey
  | .given id => (keyOf id).toOption.map .given
  | .fallback n => some (.fallback n)

def Event.fragmentAt (index : ℤ) : Event → Option String
  | .blockDelta index' (.inputJson text) => if index' = index then some text else none
  | _ => none

def emittedAt (events : List Event) (index : ℤ) : String := String.join (events.filterMap (Event.fragmentAt index))

def BlockOf (events : List Event) (key : ToolKey) (index : ℤ) : Prop :=
  ∃ id name, .blockStart index (.toolUse id name) ∈ events ∧ id.key = some key

def Conserved (events : List Event) (key : ToolKey) (carried : String) : Prop :=
  (∃ index, BlockOf events key index) ∧
    ∀ index, BlockOf events key index → rstrip (emittedAt events index) = rstrip carried

def ErrorFree (events : List Event) : Prop := ∀ message, .error message ∉ events

theorem emittedAt_append (events : List Event) (e : Event) (index : ℤ) :
    emittedAt (events ++ [e]) index = emittedAt events index ++ (e.fragmentAt index).getD "" := by
  rw [emittedAt, List.filterMap_append, String.join_append, emittedAt]
  cases he : e.fragmentAt index with
  | none => simp [he]
  | some text => simp [he]

theorem emittedAt_of_none (h : e.fragmentAt index = none) (events : List Event) :
    emittedAt (events ++ [e]) index = emittedAt events index := by
  rw [emittedAt_append, h, Option.getD_none, String.append_empty]

theorem BlockOf.append {events : List Event} {key : ToolKey} {index : ℤ} (h : BlockOf events key index) (e : Event) :
    BlockOf (events ++ [e]) key index := by
  obtain ⟨id, name, hmem, hkey⟩ := h
  exact ⟨id, name, List.mem_append_left _ hmem, hkey⟩

def Event.Leads (e : Event) : Prop := ∀ index id name, e ≠ .blockStart index (.toolUse id name)

theorem blockOf_append_of_leads (he : e.Leads) : BlockOf (events ++ [e]) key index ↔ BlockOf events key index := by
  constructor
  · rintro ⟨id, name, hmem, hkey⟩
    rcases List.mem_append.1 hmem with hold | hnew
    · exact ⟨id, name, hold, hkey⟩
    · exact absurd (List.mem_singleton.1 hnew).symm (he index id name)
  · intro h
    exact h.append e

theorem Body.emittedAt_next (h : Body events) {index : ℤ}
    (hindex : (started events).length ≤ index) : emittedAt events index = "" := by
  induction h with
  | start model inputTokens => rfl
  | @next events e hbody hfits ih =>
    have hle : ((started events).length : ℤ) ≤ index := by
      rw [started_append, List.length_append] at hindex
      push_cast at hindex
      omega
    rw [emittedAt_of_none _ events, ih hle]
    cases e with
    | blockDelta index' delta =>
      cases delta with
      | inputJson text =>
        have hlt := hbody.open_lt hfits
        rw [Event.fragmentAt, if_neg (by omega)]
      | _ => rfl
    | _ => rfl

/-! ## Keeping track -/

structure Matches (pending : Prop) (key : ToolKey) (c : Carried) (tool : Tool) (out : List Event) : Prop where
  id : tool.id.key = some key
  arguments : tool.arguments = c.text
  started : tool.started = c.named
  stopped : tool.stopped = c.closed
  named_of : c.named = true → tool.name.truthy = true
  named_only : tool.name.truthy = true → c.named = true ∨ pending
  unsent : c.named = false → c.sent = ""
  sent : c.named = true → emittedAt out tool.blockIndex = c.sent
  block : c.named = true → BlockOf out key tool.blockIndex

structure Tracks (pending : ToolKey → Prop) (ledger : ToolKey → Carried) (s : Stream) : Prop where
  absent : ∀ key, s.trackedToolCalls.get key = none → ledger key = .empty
  present : ∀ key tool, s.trackedToolCalls.get key = some tool → Matches (pending key) key (ledger key) tool s.out
  blocks : ∀ key index, BlockOf s.out key index →
    ∃ tool, s.trackedToolCalls.get key = some tool ∧ tool.started = true ∧ tool.blockIndex = index

section Tracking

variable {pending pending' : ToolKey → Prop} {ledger : ToolKey → Carried} {s s' : Stream} {key : ToolKey}

theorem Matches.frame {p p' : Prop} (h : Matches p key c tool out) (hp : p → p')
    (hsent : c.named = true → emittedAt out' tool.blockIndex = emittedAt out tool.blockIndex)
    (hblock : BlockOf out key tool.blockIndex → BlockOf out' key tool.blockIndex) : Matches p' key c tool out' where
  id := h.id
  arguments := h.arguments
  started := h.started
  stopped := h.stopped
  named_of := h.named_of
  named_only := fun hname => (h.named_only hname).imp_right hp
  unsent := h.unsent
  sent := fun hn => (hsent hn).trans (h.sent hn)
  block := fun hn => hblock (h.block hn)

theorem Tracks.update (h : Tracks pending ledger s)
    (htools : s'.trackedToolCalls = s.trackedToolCalls.set key tool) (hmatch : Matches (pending' key) key c tool s'.out)
    (hpending : ∀ key', key' ≠ key → pending key' → pending' key')
    (hothers : ∀ key' tool', key' ≠ key → s.trackedToolCalls.get key' = some tool' → tool'.started = true →
      emittedAt s'.out tool'.blockIndex = emittedAt s.out tool'.blockIndex)
    (hkept : ∀ key' index, BlockOf s.out key' index → BlockOf s'.out key' index)
    (hblocks : ∀ key' index, BlockOf s'.out key' index →
      BlockOf s.out key' index ∨ key' = key ∧ tool.started = true ∧ tool.blockIndex = index)
    (hsame : ∀ old, s.trackedToolCalls.get key = some old → old.started = true →
      tool.started = true ∧ tool.blockIndex = old.blockIndex) :
    Tracks pending' (Function.update ledger key c) s' where
  absent := by
    intro key' hget
    rw [htools, OrderedMap.get_set] at hget
    split at hget
    · cases hget
    · rename_i hne
      rw [Function.update_of_ne hne]
      exact h.absent key' hget
  present := by
    intro key' tool' hget
    rw [htools, OrderedMap.get_set] at hget
    split at hget
    · rename_i heq
      subst heq
      cases hget
      rw [Function.update_self]
      exact hmatch
    · rename_i hne
      rw [Function.update_of_ne hne]
      have hold := h.present key' tool' hget
      exact hold.frame (hpending key' hne) (fun hn => hothers key' tool' hne hget (hold.started.trans hn))
        (hkept key' _)
  blocks := by
    intro key' index hblock
    rw [htools, OrderedMap.get_set]
    split
    · rename_i heq
      subst heq
      refine ⟨tool, rfl, ?_⟩
      rcases hblocks key' index hblock with hold | ⟨-, hstarted, hindex⟩
      · obtain ⟨old, hget, hstarted, hindex⟩ := h.blocks key' index hold
        obtain ⟨hstarted', hindex'⟩ := hsame old hget hstarted
        exact ⟨hstarted', hindex'.trans hindex⟩
      · exact ⟨hstarted, hindex⟩
    · rename_i hne
      rcases hblocks key' index hblock with hold | ⟨heq, -⟩
      · exact h.blocks key' index hold
      · exact absurd heq hne

structure Quiet (s s' : Stream) : Prop where
  tools : s'.trackedToolCalls = s.trackedToolCalls
  routes : s'.indexToToolId = s.indexToToolId
  fallbacks : s'.fallbacks = s.fallbacks
  emitted : ∀ index, emittedAt s'.out index = emittedAt s.out index
  blocks : ∀ key index, BlockOf s'.out key index ↔ BlockOf s.out key index

namespace Quiet

theorem refl (s : Stream) : Quiet s s := ⟨rfl, rfl, rfl, fun _ => rfl, fun _ _ => Iff.rfl⟩

theorem trans (h : Quiet s s') (h' : Quiet s' s'') : Quiet s s'' :=
  ⟨h'.tools.trans h.tools, h'.routes.trans h.routes, h'.fallbacks.trans h.fallbacks,
    fun index => (h'.emitted index).trans (h.emitted index),
    fun key index => (h'.blocks key index).trans (h.blocks key index)⟩

theorem emit (s : Stream) (he : e.Leads) (hfragment : ∀ index, e.fragmentAt index = none)
    (hout : s'.out = s.out ++ [e]) (htools : s'.trackedToolCalls = s.trackedToolCalls)
    (hroutes : s'.indexToToolId = s.indexToToolId) (hfallbacks : s'.fallbacks = s.fallbacks) : Quiet s s' where
  tools := htools
  routes := hroutes
  fallbacks := hfallbacks
  emitted := by
    intro index
    rw [hout, emittedAt_of_none (hfragment index)]
  blocks := by
    intro key index
    rw [hout, blockOf_append_of_leads he]

theorem closeThinking (s : Stream) : Quiet s s.closeThinking := by
  rw [Stream.closeThinking]
  split
  · exact emit s (by simp [Event.Leads]) (fun _ => rfl) rfl rfl rfl rfl
  · exact refl s

theorem closeText (s : Stream) : Quiet s s.closeText := by
  rw [Stream.closeText]
  split
  · exact emit s (by simp [Event.Leads]) (fun _ => rfl) rfl rfl rfl rfl
  · exact refl s

theorem openThinking (s : Stream) : Quiet s s.openThinking := by
  rw [Stream.openThinking]
  split
  · exact refl s
  · exact emit s (by simp [Event.Leads]) (fun _ => rfl) rfl rfl rfl rfl

theorem openText (s : Stream) : Quiet s s.openText := by
  rw [Stream.openText]
  split
  · exact refl s
  · exact emit s (by simp [Event.Leads]) (fun _ => rfl) rfl rfl rfl rfl

theorem addReasoning (s : Stream) (reasoning : Json) : Quiet s (s.addReasoning reasoning) := by
  rw [Stream.addReasoning]
  split
  · exact (openThinking s).trans (emit _ (by simp [Event.Leads]) (fun _ => rfl) rfl rfl rfl rfl)
  · exact refl s

theorem addContent (s : Stream) (content : Json) : Quiet s (s.addContent content) := by
  rw [Stream.addContent]
  split
  · exact ((closeThinking s).trans (openText _)).trans
      (emit _ (by simp [Event.Leads]) (fun _ => rfl) rfl rfl rfl rfl)
  · exact refl s

end Quiet

theorem Tracks.quiet (h : Tracks pending ledger s) (hq : Quiet s s') : Tracks pending ledger s' where
  absent := by
    intro key hget
    exact h.absent key (hq.tools ▸ hget)
  present := by
    intro key tool hget
    rw [hq.tools] at hget
    exact (h.present key tool hget).frame id (fun _ => hq.emitted _) (hq.blocks _ _).2
  blocks := by
    intro key index hblock
    rw [hq.tools]
    exact h.blocks key index ((hq.blocks key index).1 hblock)

end Tracking

section ToolCalls

abbrev Settled : ToolKey → Prop := fun _ => False

variable {pending : ToolKey → Prop} {ledger : ToolKey → Carried} {s : Stream} {key : ToolKey} {tool : Tool}

theorem Tracks.at (h : Tracks pending ledger s) (hget : s.trackedToolCalls.get key = some tool) :
    Matches (pending key) key (ledger key) tool s.out := h.present key tool hget

theorem fragmentAt_of_ne (hcalling : Calling busy s)
    (hget : s.trackedToolCalls.get key = some tool) (hstarted : tool.started = true)
    (hne : key' ≠ key) (hget' : s.trackedToolCalls.get key' = some tool') (hstarted' : tool'.started = true)
    (text : String) : (Event.blockDelta tool.blockIndex (.inputJson text)).fragmentAt tool'.blockIndex = none := by
  rw [Event.fragmentAt, if_neg]
  intro heq
  exact hcalling.tidy.tools.ne_of_ne hget hstarted hne hget' hstarted' heq.symm

theorem Tracks.setNew (h : Tracks Settled ledger s) {s' : Stream} {id : ToolId} {name : Json}
    (hid : id.key = some key) (hget : s.trackedToolCalls.get key = none)
    (htools : s'.trackedToolCalls = s.trackedToolCalls.set key (Stream.newTool id name)) (hout : s'.out = s.out) :
    Tracks (fun key' => key' = key ∧ name.truthy = true) ledger s' := by
  have hempty : ledger key = .empty := h.absent key hget
  have hupdate : Tracks (fun key' => key' = key ∧ name.truthy = true) (Function.update ledger key .empty) s' := by
    apply h.update htools
    · refine ⟨hid, rfl, rfl, rfl, ?_, ?_, fun _ => rfl, ?_, ?_⟩
      · intro hn
        cases hn
      · intro hname
        exact Or.inr ⟨rfl, hname⟩
      · intro hn
        cases hn
      · intro hn
        cases hn
    · intro key' _ hfalse
      exact hfalse.elim
    · intro key' tool' _ _ _
      rw [hout]
    · intro key' index hblock
      rw [hout]
      exact hblock
    · intro key' index hblock
      rw [hout] at hblock
      exact Or.inl hblock
    · intro old hold
      rw [hget] at hold
      cases hold
  rwa [← hempty, Function.update_eq_self] at hupdate

theorem Tracks.look (h : Tracks Settled ledger s) (key : ToolKey) (name : Json)
    (htools : s'.trackedToolCalls = s.trackedToolCalls) (hout : s'.out = s.out) :
    Tracks (fun key' => key' = key ∧ name.truthy = true) ledger s' where
  absent := by
    intro key' hget
    exact h.absent key' (htools ▸ hget)
  present := by
    intro key' tool' hget
    rw [htools] at hget
    rw [hout]
    exact (h.present key' tool' hget).frame False.elim (fun _ => rfl) id
  blocks := by
    rw [hout, htools]
    exact h.blocks

theorem Tracks.startTool {name : Json} (h : Tracks (fun key' => key' = key ∧ name.truthy = true) ledger s)
    (hcalling : Calling (some key) s) (hget : s.trackedToolCalls.get key = some tool) :
    Tracks Settled (Function.update ledger key ((ledger key).name name))
      (s.startTool key (Stream.nameTool name tool)) := by
  have hmatch := h.at hget
  obtain ⟨hstarted, hstopped, hindex⟩ := Calling.nameTool_same name tool
  have hid : (Stream.nameTool name tool).id = tool.id := by
    rw [Stream.nameTool]
    split <;> rfl
  have harguments : (Stream.nameTool name tool).arguments = tool.arguments := by
    rw [Stream.nameTool]
    split <;> rfl
  have hname : (Stream.nameTool name tool).name.truthy = (tool.name.truthy || name.truthy) := by
    rw [Stream.nameTool]
    split
    · rename_i hcond
      simp only [Bool.and_eq_true, Bool.not_eq_true'] at hcond
      rw [hcond.1, Bool.or_true]
    rename_i hcond
    cases hname : tool.name.truthy with
    | true => rfl
    | false =>
      rw [hname] at hcond
      simpa using hcond
  have hothers : ∀ (key' : ToolKey), key' ≠ key → key' = key ∧ name.truthy = true → Settled key' :=
    fun key' hne hp => hne hp.1
  rw [Stream.startTool]
  split
  · rename_i hcond
    simp only [Bool.and_eq_true, Bool.not_eq_true'] at hcond
    -- the call gets its block here, in which there is nothing yet
    have hnot : (ledger key).named = false := by rw [← hmatch.started, ← hstarted, hcond.1]
    have hnamed : ((ledger key).name name).named = true := by
      show ((ledger key).named || name.truthy) = true
      rw [hname] at hcond
      rcases Bool.or_eq_true_iff.1 hcond.2 with htool | hn
      · rcases hmatch.named_only htool with hn | ⟨-, hn⟩
        · rw [hn, Bool.true_or]
        · rw [hn, Bool.or_true]
      · rw [hn, Bool.or_true]
    have hnext : s.currentBlockIndex = (started s.out).length := by
      have hnext := hcalling.tidy.next
      rwa [hcalling.lead, if_neg (by decide), add_zero] at hnext
    have hstart : ∀ index, (Event.blockStart s.currentBlockIndex
        (.toolUse (Stream.nameTool name tool).id (Stream.nameTool name tool).name)).fragmentAt index = none :=
      fun _ => rfl
    apply h.update rfl _ hothers
    · intro key' tool' _ _ _
      exact emittedAt_of_none (hstart _) s.out
    · intro key' index hblock
      exact hblock.append _
    · rintro key' index ⟨id, blockName, hmem, hkey⟩
      rcases List.mem_append.1 hmem with hold | hnew
      · exact Or.inl ⟨id, blockName, hold, hkey⟩
      have heq := List.mem_singleton.1 hnew
      injection heq with hi hb
      injection hb with hb' _
      rw [hb', hid, hmatch.id] at hkey
      exact Or.inr ⟨(Option.some.inj hkey).symm, rfl, hi.symm⟩
    · intro old hold hstarted'
      rw [hget] at hold
      cases hold
      rw [← hstarted, hcond.1] at hstarted'
      cases hstarted'
    refine ⟨?_, ?_, ?_, ?_, ?_, ?_, ?_, ?_, ?_⟩
    · exact (congrArg ToolId.key hid).trans hmatch.id
    · exact harguments.trans hmatch.arguments
    · exact hnamed.symm
    · exact hstopped.trans hmatch.stopped
    · intro _
      exact hcond.2
    · intro _
      exact Or.inl hnamed
    · intro hn
      rw [hnamed] at hn
      cases hn
    · intro _
      show emittedAt (s.out ++ [_]) s.currentBlockIndex = (ledger key).sent
      rw [emittedAt_of_none (hstart _), hcalling.tidy.body.emittedAt_next (le_of_eq hnext.symm), hmatch.unsent hnot]
    · intro _
      exact ⟨_, _, List.mem_append_right _ (List.mem_singleton.2 rfl), (congrArg ToolId.key hid).trans hmatch.id⟩
  · rename_i hcond
    -- the call has its block already, or still no name
    have hsame : ((ledger key).name name).named = (ledger key).named := by
      show ((ledger key).named || name.truthy) = (ledger key).named
      cases hn : (ledger key).named with
      | true => rfl
      | false =>
        have hnot : tool.started = false := hmatch.started.trans hn
        rw [hstarted, hnot, Bool.not_false, Bool.true_and, hname, Bool.not_eq_true] at hcond
        exact (Bool.or_eq_false_iff.1 hcond).2
    apply h.update rfl _ hothers
    · intro key' tool' _ _ _
      rfl
    · intro key' index hblock
      exact hblock
    · intro key' index hblock
      exact Or.inl hblock
    · intro old hold hstarted'
      rw [hget] at hold
      cases hold
      exact ⟨hstarted.trans hstarted', hindex⟩
    refine ⟨?_, ?_, ?_, ?_, ?_, ?_, ?_, ?_, ?_⟩
    · exact (congrArg ToolId.key hid).trans hmatch.id
    · exact harguments.trans hmatch.arguments
    · exact (hstarted.trans hmatch.started).trans hsame.symm
    · exact hstopped.trans hmatch.stopped
    · intro hn
      rw [hname, hmatch.named_of (hsame ▸ hn), Bool.true_or]
    · intro hn
      refine Or.inl (hsame.trans ?_)
      rw [← hmatch.started]
      rw [hn, Bool.and_true, Bool.not_eq_true', Bool.not_eq_false, hstarted] at hcond
      exact hcond
    · intro hn
      exact hmatch.unsent (hsame ▸ hn)
    · intro hn
      rw [hindex]
      exact hmatch.sent (hsame ▸ hn)
    · intro hn
      rw [hindex]
      exact hmatch.block (hsame ▸ hn)

theorem Tracks.bufferArguments (h : Tracks Settled ledger s) (hcalling : Calling none s)
    (hget : s.trackedToolCalls.get key = some tool) (text : String) :
    Tracks Settled (Function.update ledger key ((ledger key).append text)) (s.bufferArguments key text tool) := by
  have hmatch := h.at hget
  have harguments : tool.arguments ++ text = (ledger key).text ++ text := by rw [hmatch.arguments]
  have hcond : ((ledger key).named && !(ledger key).closed) = (tool.started && !tool.stopped) := by
    rw [hmatch.started, hmatch.stopped]
  rw [Stream.bufferArguments]
  split
  · rename_i hopen
    have hstarted : tool.started = true := (Bool.and_eq_true_iff.1 hopen).1
    have hsent : ((ledger key).append text).sent = (ledger key).sent ++ text := by
      rw [Carried.append, hcond, if_pos hopen]
    apply h.update rfl _ fun key' _ hfalse => hfalse
    · intro key' tool' hne hget' hstarted'
      exact emittedAt_of_none (fragmentAt_of_ne hcalling hget hstarted hne hget' hstarted' text) s.out
    · intro key' index hblock
      exact hblock.append _
    · intro key' index hblock
      exact Or.inl ((blockOf_append_of_leads (by simp [Event.Leads])).1 hblock)
    · intro old hold hstarted'
      rw [hget] at hold
      cases hold
      exact ⟨hstarted', rfl⟩
    refine ⟨hmatch.id, harguments, hmatch.started, hmatch.stopped, hmatch.named_of, hmatch.named_only, ?_, ?_, ?_⟩
    · intro hn
      rw [hmatch.started, show (ledger key).named = false from hn] at hstarted
      cases hstarted
    · intro hn
      show emittedAt (s.out ++ [_]) tool.blockIndex = _
      rw [emittedAt_append, Event.fragmentAt, if_pos rfl, hmatch.sent hn, hsent, Option.getD_some]
    · intro hn
      exact (hmatch.block hn).append _
  · rename_i hopen
    have hsent : ((ledger key).append text).sent = (ledger key).sent := by
      rw [Carried.append, hcond, if_neg hopen]
    apply h.update rfl _ fun key' _ hfalse => hfalse
    · intro key' tool' _ _ _
      rfl
    · intro key' index hblock
      exact hblock
    · intro key' index hblock
      exact Or.inl hblock
    · intro old hold hstarted'
      rw [hget] at hold
      cases hold
      exact ⟨hstarted', rfl⟩
    refine ⟨hmatch.id, harguments, hmatch.started, hmatch.stopped, hmatch.named_of, hmatch.named_only, ?_, ?_, ?_⟩
    · intro hn
      rw [hsent]
      exact hmatch.unsent hn
    · intro hn
      rw [hsent]
      exact hmatch.sent hn
    · exact hmatch.block

theorem Tracks.stopTool (h : Tracks Settled ledger s) (hget : s.trackedToolCalls.get key = some tool)
    (hc : c = { ledger key with closed := true }) :
    Tracks Settled (Function.update ledger key c) (s.stopTool key tool) := by
  subst hc
  have hmatch := h.at hget
  have hstop : ∀ index, (Event.blockStop tool.blockIndex).fragmentAt index = none := fun _ => rfl
  apply h.update rfl _ fun key' _ hfalse => hfalse
  · intro key' tool' _ _ _
    exact emittedAt_of_none (hstop _) s.out
  · intro key' index hblock
    exact hblock.append _
  · intro key' index hblock
    exact Or.inl ((blockOf_append_of_leads (by simp [Event.Leads])).1 hblock)
  · intro old hold hstarted'
    rw [hget] at hold
    cases hold
    exact ⟨hstarted', rfl⟩
  · refine ⟨hmatch.id, hmatch.arguments, hmatch.started, rfl, hmatch.named_of, hmatch.named_only, hmatch.unsent, ?_, ?_⟩
    · intro hn
      exact (emittedAt_of_none (hstop _) s.out).trans (hmatch.sent hn)
    · intro hn
      exact (hmatch.block hn).append _

end ToolCalls

/-! ## Reading a stream -/

abbrev AnyFailure : Failure → Stream → Prop := fun _ _ => True

section Reading

variable {P : Stream → Prop} {α : Type}

theorem raising_eq (x : Except Raised α) : Triple P (raising x) (fun a s => x = .ok a ∧ P s) AnyFailure := by
  cases x with
  | ok a => exact fun s hs => ⟨rfl, hs⟩
  | error e => exact fun s _ => trivial

theorem toolAt_eq (key : ToolKey) :
    Triple P (toolAt key) (fun tool s => P s ∧ s.trackedToolCalls.get key = some tool) AnyFailure := by
  intro s hs
  rw [toolAt]
  show EndsIn _ _ (raising _ s)
  cases hget : s.trackedToolCalls.get key with
  | none => exact trivial
  | some tool => exact ⟨hs, hget⟩

variable (loads : String → Except LoadError Json)

structure Knows (ledger : ToolKey → Carried) (s : Stream) : Prop where
  calling : Calling none s
  tracks : Tracks Settled ledger s

variable {ledger : ToolKey → Carried} {key : ToolKey}

def RoutesAre (r : Routing) (s : Stream) : Prop := s.indexToToolId = r.lastAt ∧ s.fallbacks = r.fallbacks

theorem closeComplete_knows (r : Routing) : Triple (fun s => Knows ledger s ∧ RoutesAre r s) (closeComplete loads key)
      (fun _ s => Knows (Function.update ledger key ((ledger key).close loads)) s ∧ RoutesAre r s) AnyFailure := by
  rw [closeComplete]
  apply Triple.bind (toolAt_eq key)
  intro tool
  split
  · rename_i hcond
    obtain ⟨hopen, hmay⟩ := Bool.and_eq_true_iff.1 hcond
    -- the arguments are tried
    have htry : ∀ s, Knows ledger s → s.trackedToolCalls.get key = some tool →
        (ledger key).close loads = { ledger key with closed := (loads tool.arguments).toOption.isSome } := by
      intro s hs hget
      have hmatch := hs.tracks.at hget
      have hstate := hopen
      simp only [Bool.and_eq_true, Bool.not_eq_true'] at hstate
      have hclosed : ((ledger key).closed || ((ledger key).named && complete loads (ledger key).text)) =
          (loads tool.arguments).toOption.isSome := by
        rw [← hmatch.stopped, hstate.2, ← hmatch.started, hstate.1, complete, ← hmatch.arguments, hmay]
        rfl
      rw [Carried.close, hclosed]
    have hfail : ∀ s, Knows ledger s → s.trackedToolCalls.get key = some tool →
        (loads tool.arguments).toOption.isSome = false → (ledger key).close loads = ledger key := by
      intro s hs hget hloads
      have hstate := hopen
      simp only [Bool.and_eq_true, Bool.not_eq_true'] at hstate
      have hclosed : (ledger key).closed = false := (hs.tracks.at hget).stopped.symm.trans hstate.2
      rw [htry s hs hget, hloads, ← hclosed]
    split
    · rename_i value hloads
      apply Triple.change
      rintro s ⟨⟨hs, hr⟩, hget⟩
      refine ⟨⟨hs.calling.stopTool hget hopen, hs.tracks.stopTool hget ?_⟩, hr⟩
      rw [htry s hs hget, hloads]
      rfl
    · rename_i hloads
      apply Triple.pure
      rintro s ⟨⟨hs, hr⟩, hget⟩
      rw [hfail s hs hget (by rw [hloads]; rfl), Function.update_eq_self]
      exact ⟨hs, hr⟩
    · rename_i hloads
      apply Triple.pure
      rintro s ⟨⟨hs, hr⟩, hget⟩
      rw [hfail s hs hget (by rw [hloads]; rfl), Function.update_eq_self]
      exact ⟨hs, hr⟩
    · exact Triple.throw fun s _ => trivial
  · rename_i hcond
    apply Triple.pure
    rintro s ⟨⟨hs, hr⟩, hget⟩
    have hmatch := hs.tracks.at hget
    have hsame : (ledger key).close loads = ledger key := by
      rw [Carried.close]
      cases hclosed : (ledger key).closed with
      | true =>
        rw [Bool.true_or, ← hclosed]
      | false =>
        have hnot : ((ledger key).named && complete loads (ledger key).text) = false := by
          rw [hmatch.started, hmatch.stopped, hclosed, Bool.not_false, Bool.and_true, Bool.not_eq_true] at hcond
          rw [complete, ← Bool.and_assoc, ← hmatch.arguments, hcond, Bool.false_and]
        rw [hnot, Bool.false_or, ← hclosed]
    rw [hsame, Function.update_eq_self]
    exact ⟨hs, hr⟩

theorem truthy_str : (Json.str text).truthy = true ↔ text ≠ "" := by simp [Json.truthy]

theorem addArguments_knows (r : Routing) (arguments : Json) :
    Triple (fun s => Knows ledger s ∧ RoutesAre r s) (addArguments loads key arguments)
      (fun _ s => ∃ text, fragmentOf arguments = .ok text ∧
        Knows (Function.update ledger key ((ledger key).addText loads text)) s ∧ RoutesAre r s) AnyFailure := by
  unfold addArguments
  split
  · split
    · rename_i text htext
      apply Triple.bind (toolAt_eq key)
      intro tool
      apply Triple.bind (Triple.change (Q := fun _ s =>
        Knows (Function.update ledger key ((ledger key).append text)) s ∧ RoutesAre r s) _)
      · intro _
        apply (closeComplete_knows loads r).consequence (fun s hs => hs) _ fun _ _ _ => trivial
        rintro _ s ⟨hs, hr⟩
        refine ⟨text, by rw [fragmentOf, if_pos htext], ?_, hr⟩
        rw [Function.update_self, Function.update_idem] at hs
        rw [Carried.addText, if_neg (truthy_str.1 htext)]
        exact hs
      · rintro s ⟨⟨hs, hr⟩, hget⟩
        refine ⟨⟨hs.calling.bufferArguments hget text, hs.tracks.bufferArguments hs.calling hget text⟩, ?_⟩
        have hroutes : (s.bufferArguments key text tool).indexToToolId = s.indexToToolId ∧
            (s.bufferArguments key text tool).fallbacks = s.fallbacks := by
          rw [Stream.bufferArguments]
          split <;> exact ⟨rfl, rfl⟩
        exact ⟨hroutes.1.trans hr.1, hroutes.2.trans hr.2⟩
    · exact Triple.throw fun s _ => trivial
  · rename_i hnot
    apply Triple.pure
    rintro s ⟨hs, hr⟩
    refine ⟨"", by unfold fragmentOf; rw [if_neg hnot], ?_, hr⟩
    rw [Carried.addText, if_pos rfl, Function.update_eq_self]
    exact hs

structure Found (ledger : ToolKey → Carried) (name : Json) (key : ToolKey) (s : Stream) : Prop where
  calling : Calling (some key) s
  tracks : Tracks (fun key' => key' = key ∧ name.truthy = true) ledger s

theorem track_found (hs : Knows ledger s) (key : Key) {id : Json} (hid : keyOf id = .ok key) (name : Json) :
    Found ledger name (.given key) (s.track key id name) := by
  refine ⟨hs.calling.track key id name, ?_⟩
  rw [Stream.track]
  split
  · exact hs.tracks.look _ name rfl rfl
  · rename_i hget
    exact hs.tracks.setNew (by rw [ToolId.key, hid]; rfl) hget rfl rfl

theorem trackFallback_found (hs : Knows ledger s) (name : Json) :
    Found ledger name (.fallback s.fallbacks) (s.trackFallback name) := by
  have hnone : s.trackedToolCalls.get (.fallback s.fallbacks) = none := by
    cases hget : s.trackedToolCalls.get (.fallback s.fallbacks) with
    | none => rfl
    | some tool => exact absurd (hs.calling.tidy.fresh _ tool hget) (lt_irrefl _)
  refine ⟨hs.calling.trackFallback name, ?_⟩
  exact @Tracks.setNew ledger s (.fallback s.fallbacks) hs.tracks (s.trackFallback name) (.fallback s.fallbacks) name
    rfl hnone rfl rfl

theorem Tracks.of_eq {pending : ToolKey → Prop} (h : Tracks pending ledger s)
    (htools : s'.trackedToolCalls = s.trackedToolCalls) (hout : s'.out = s.out) : Tracks pending ledger s' := by
  refine ⟨?_, ?_, ?_⟩
  · rw [htools]
    exact h.absent
  · rw [htools, hout]
    exact h.present
  · rw [htools, hout]
    exact h.blocks

theorem Found.route (h : Found ledger name key s) (index : Key) (key' : ToolKey) :
    Found ledger name key (s.route index key') :=
  ⟨h.calling.of_eq rfl rfl rfl rfl rfl rfl, h.tracks.of_eq rfl rfl⟩

theorem resolveTool_found (r : Routing) (call : ToolCall) :
    Triple (fun s => Knows ledger s ∧ RoutesAre r s) (resolveTool call)
      (fun key s => ∃ id index, idOf call.id = .ok id ∧ keyOf call.index = .ok index ∧ (r.route id index).1 = key ∧
        Found ledger call.name key s ∧ RoutesAre (r.route id index).2 s) AnyFailure := by
  rw [resolveTool]
  split
  · rename_i hid
    apply Triple.bind (raising_eq _)
    intro key
    apply Triple.assume
    intro hkey
    apply Triple.bind (Triple.change (Q := fun _ s => Found ledger call.name (.given key) s ∧ RoutesAre r s) _)
    · intro _
      apply Triple.bind (raising_eq _)
      intro index
      apply Triple.assume
      intro hindex
      apply Triple.bind (Triple.change (Q := fun _ s => Found ledger call.name (.given key) s ∧
        RoutesAre (r.route (some key) index).2 s) _)
      · intro _
        apply Triple.pure
        intro s hs
        exact ⟨some key, index, by rw [idOf, if_pos hid, hkey]; rfl, hindex, rfl, hs⟩
      · rintro s ⟨hs, hr⟩
        exact ⟨hs.route index _, congrArg (OrderedMap.set index (ToolKey.given key)) hr.1, hr.2⟩
    · rintro s ⟨hs, hr⟩
      refine ⟨track_found hs key hkey call.name, ?_⟩
      have hroutes : (s.track key call.id call.name).indexToToolId = s.indexToToolId ∧
          (s.track key call.id call.name).fallbacks = s.fallbacks := by
        rw [Stream.track]
        split <;> exact ⟨rfl, rfl⟩
      exact ⟨hroutes.1.trans hr.1, hroutes.2.trans hr.2⟩
  · rename_i hid
    have hnone : idOf call.id = .ok none := by
      rw [idOf, if_neg hid]
      rfl
    apply Triple.bind (raising_eq _)
    intro index
    apply Triple.assume
    intro hindex
    apply Triple.bind (Triple.get (Q := fun s s' => s' = s ∧ Knows ledger s ∧ RoutesAre r s) fun s hs => ⟨rfl, hs⟩)
    intro s
    cases hget : s.indexToToolId.get index with
    | some key =>
      apply Triple.pure
      rintro s' ⟨rfl, hs, hr⟩
      have hroute : r.route none index = (key, r) := by rw [Routing.route, ← hr.1, hget]
      rw [hget] at *
      refine ⟨none, index, hnone, hindex, by rw [hroute], ⟨hs.calling.look key, hs.tracks.look key _ rfl rfl⟩, ?_⟩
      rw [hroute]
      exact hr
    | none =>
      apply Triple.bind (Triple.change (Q := fun _ s' => Found ledger call.name (.fallback s.fallbacks) s' ∧
        RoutesAre ⟨r.lastAt, r.fallbacks + 1⟩ s' ∧ RoutesAre r s) _)
      · intro _
        apply Triple.bind (Triple.change (Q := fun _ s' => Found ledger call.name (.fallback s.fallbacks) s' ∧
          RoutesAre (r.route none index).2 s' ∧ RoutesAre r s) _)
        · intro _
          apply Triple.pure
          rintro s' ⟨hs', hr', hr⟩
          refine ⟨none, index, hnone, hindex, ?_, hs', hr'⟩
          rw [Routing.route, ← hr.1, hget, hr.2]
        · rintro s' ⟨hs', hr', hr⟩
          refine ⟨hs'.route index _, ?_, hr⟩
          have hroute : (r.route none index).2 = ⟨r.lastAt.set index (.fallback r.fallbacks), r.fallbacks + 1⟩ := by
            rw [Routing.route, ← hr.1, hget]
          rw [hroute, ← hr.2]
          exact ⟨congrArg (OrderedMap.set index (ToolKey.fallback s.fallbacks)) hr'.1, hr.2 ▸ hr'.2⟩
      · rintro s' ⟨rfl, hs, hr⟩
        exact ⟨trackFallback_found hs call.name, ⟨hr.1, congrArg (· + 1) hr.2⟩, hr⟩

theorem addToolCall_knows (pieces : List Piece) (r : Routing) (value : Json) :
    Triple (fun s => Knows (ledgerOf loads pieces) s ∧ RoutesAre r s) (addToolCall loads value)
      (fun _ s => ∃ piece r', pieceOf r value = .ok (piece, r') ∧ Knows (ledgerOf loads (pieces ++ [piece])) s ∧
        RoutesAre r' s) AnyFailure := by
  rw [addToolCall]
  apply Triple.bind (raising_eq _)
  intro call
  apply Triple.assume
  intro hcall
  apply Triple.bind (resolveTool_found r call)
  rintro key
  apply Triple.bind (toolAt_eq key)
  intro tool
  -- which call it is, is known from here on
  rintro s ⟨⟨id, index, hid, hindex, hkey, hfound, hr⟩, hget⟩
  have hmore : Triple (fun s => Knows (Function.update (ledgerOf loads pieces) key
        ((ledgerOf loads pieces key).name call.name)) s ∧ RoutesAre (r.route id index).2 s)
      (addArguments loads key call.arguments)
      (fun _ s => ∃ piece r', pieceOf r value = .ok (piece, r') ∧ Knows (ledgerOf loads (pieces ++ [piece])) s ∧
        RoutesAre r' s) AnyFailure := by
    apply (addArguments_knows loads (r.route id index).2 call.arguments).consequence (fun s hs => hs) _
      fun _ _ _ => trivial
    rintro _ s' ⟨text, htext, hs', hr'⟩
    refine ⟨⟨key, ⟨call.name, text⟩⟩, (r.route id index).2, ?_, ?_, hr'⟩
    · rw [← hkey]
      exact bind_eq_ok.2 ⟨call, hcall, bind_eq_ok.2 ⟨id, hid, bind_eq_ok.2 ⟨index, hindex,
        bind_eq_ok.2 ⟨text, htext, rfl⟩⟩⟩⟩
    · rw [ledgerOf_append]
      rw [Function.update_self, Function.update_idem] at hs'
      exact hs'
  have hstart : RoutesAre (r.route id index).2 (s.startTool key (Stream.nameTool call.name tool)) := by
    have hroutes : (s.startTool key (Stream.nameTool call.name tool)).indexToToolId = s.indexToToolId ∧
        (s.startTool key (Stream.nameTool call.name tool)).fallbacks = s.fallbacks := by
      rw [Stream.startTool]
      split <;> exact ⟨rfl, rfl⟩
    exact ⟨hroutes.1.trans hr.1, hroutes.2.trans hr.2⟩
  obtain ⟨hstarted, hstopped, hblock⟩ := Calling.nameTool_same call.name tool
  exact hmore _ ⟨⟨hfound.calling.startTool hget hstarted hstopped hblock, hfound.tracks.startTool hfound.calling hget⟩,
    hstart⟩

structure Reads (calls : List Json) (s : Stream) : Prop where
  tidy : Tidy none s
  reads : ∃ pieces r, piecesOf calls = .ok (pieces, r) ∧ Tracks Settled (ledgerOf loads pieces) s ∧ RoutesAre r s

variable {loads}

theorem Reads.quiet (h : Reads loads calls s) (hq : Quiet s s') (htidy : Tidy none s') : Reads loads calls s' := by
  obtain ⟨pieces, r, hpieces, htracks, hr⟩ := h.reads
  exact ⟨htidy, pieces, r, hpieces, htracks.quiet hq, hq.routes.trans hr.1, hq.fallbacks.trans hr.2⟩

variable (loads)

section

variable (calls : List Json)

include calls

theorem addToolCall_reads (value : Json) :
    Triple (fun s => Reads loads calls s ∧ s.leadOpen = false) (addToolCall loads value)
      (fun _ s => Reads loads (calls ++ [value]) s ∧ s.leadOpen = false) AnyFailure := by
  rintro s ⟨⟨htidy, pieces, r, hpieces, htracks, hr⟩, hlead⟩
  apply (addToolCall_knows loads pieces r value).consequence (fun s hs => hs) _ (fun _ _ _ => trivial) s
    ⟨⟨⟨htidy, hlead⟩, htracks⟩, hr⟩
  rintro _ s' ⟨piece, r', hpiece, hs', hr'⟩
  refine ⟨⟨hs'.calling.tidy, pieces ++ [piece], r', ?_, hs'.tracks, hr'⟩, hs'.calling.lead⟩
  rw [piecesOf_append]
  exact bind_eq_ok.2 ⟨(pieces, r), hpieces, bind_eq_ok.2 ⟨(piece, r'), hpiece, rfl⟩⟩

theorem addToolCalls_reads (value : Json) : Triple (Reads loads calls) (addToolCalls loads value)
      (fun _ s => ∃ items, (if value.truthy then iterate value else .ok []) = .ok items ∧
        Reads loads (calls ++ items) s) AnyFailure := by
  rw [addToolCalls]
  split
  · rename_i htruthy
    apply Triple.bind (Triple.change (Q := fun _ s => Reads loads calls s ∧ s.leadOpen = false) _)
    · intro _
      apply Triple.bind (raising_eq _)
      intro items
      apply Triple.assume
      intro hitems
      apply (Triple.forEachPrefix (I := fun calls s => Reads loads calls s ∧ s.leadOpen = false)
        (addToolCall_reads loads) items calls).consequence (fun s hs => hs) _ fun _ _ _ => trivial
      rintro _ s ⟨hs, -⟩
      exact ⟨items, hitems, hs⟩
    · intro s hs
      obtain ⟨hclosed, hthinking⟩ := hs.tidy.closeThinking
      obtain ⟨htidy, hlead⟩ := hclosed.closeText hthinking
      exact ⟨hs.quiet ((Quiet.closeThinking s).trans (Quiet.closeText _)) htidy, hlead⟩
  · apply Triple.pure
    intro s hs
    exact ⟨[], rfl, by rw [List.append_nil]; exact hs⟩

theorem addFinishReason_reads (finishReason : Json) :
    Triple (Reads loads calls) (addFinishReason finishReason) (fun _ => Reads loads calls) AnyFailure := by
  rw [addFinishReason]
  split
  · exact Triple.pure fun s hs => hs
  apply Triple.bind (raising_eq _)
  intro reason
  apply Triple.change
  rintro s ⟨-, hs⟩
  exact hs.quiet ⟨rfl, rfl, rfl, fun _ => rfl, fun _ _ => Iff.rfl⟩ (hs.tidy.of_eq rfl rfl rfl rfl rfl rfl)

theorem addUsage_reads (data : Json) :
    Triple (Reads loads calls) (addUsage data) (fun _ => Reads loads calls) AnyFailure := by
  rw [addUsage]
  apply Triple.bind (raising_eq _)
  intro usageData
  cases usageData with
  | obj fields =>
    apply Triple.bind (Triple.get (Q := fun _ => Reads loads calls) fun s hs => hs.2)
    intro s
    apply Triple.bind (raising_eq _)
    intro usage
    apply Triple.change
    rintro s ⟨-, hs⟩
    exact hs.quiet ⟨rfl, rfl, rfl, fun _ => rfl, fun _ _ => Iff.rfl⟩ (hs.tidy.of_eq rfl rfl rfl rfl rfl rfl)
  | _ => exact Triple.pure fun s hs => hs.2

theorem addChoice_reads (choice : Json) : Triple (Reads loads calls) (addChoice loads choice)
      (fun _ s => ∃ items, callsOfChoice choice = .ok items ∧ Reads loads (calls ++ items) s) AnyFailure := by
  rw [addChoice]
  apply Triple.bind (raising_eq _)
  intro delta
  apply Triple.assume
  intro hdelta
  apply Triple.bind (raising_eq _)
  intro finishReason
  apply Triple.assume
  intro _
  apply Triple.bind (raising_eq _)
  intro message
  apply Triple.assume
  intro hmessage
  apply Triple.bind (raising_eq _)
  intro reasoning
  apply Triple.assume
  intro _
  apply Triple.bind (Triple.change (Q := fun _ => Reads loads calls) _)
  · intro _
    apply Triple.bind (raising_eq _)
    intro content
    apply Triple.assume
    intro _
    apply Triple.bind (Triple.change (Q := fun _ => Reads loads calls) _)
    · intro _
      apply Triple.bind (raising_eq _)
      intro value
      apply Triple.assume
      intro hvalue
      apply Triple.bind (addToolCalls_reads loads calls value)
      intro _
      rintro s ⟨items, hitems, hs⟩
      apply (addFinishReason_reads loads (calls ++ items) finishReason).consequence (fun s hs => hs) _
        (fun _ _ _ => trivial) s hs
      intro _ s' hs'
      exact ⟨items, bind_eq_ok.2 ⟨delta, hdelta, bind_eq_ok.2 ⟨message, hmessage,
        bind_eq_ok.2 ⟨value, hvalue, hitems⟩⟩⟩,
        hs'⟩
    · intro s hs
      exact hs.quiet (Quiet.addContent s content) (hs.tidy.addContent content)
  · intro s hs
    exact hs.quiet (Quiet.addReasoning s reasoning) (hs.tidy.addReasoning reasoning)

theorem addData_reads (data : Json) : Triple (Reads loads calls) (addData loads data)
      (fun _ s => ∃ items, callsOf data = .ok items ∧ Reads loads (calls ++ items) s) AnyFailure := by
  rw [addData]
  apply Triple.bind (raising_eq _)
  intro error
  cases error with
  | some message => exact Triple.throw fun s _ => trivial
  | none =>
    apply Triple.assume
    intro _
    apply Triple.bind (addUsage_reads loads calls data)
    intro _
    apply Triple.bind (raising_eq _)
    intro choices
    apply Triple.assume
    intro hchoices
    split
    · rename_i htruthy
      apply Triple.bind (raising_eq _)
      intro choice
      apply Triple.assume
      intro hchoice
      apply (addChoice_reads loads calls choice).consequence (fun s hs => hs) _ fun _ _ _ => trivial
      rintro _ s ⟨items, hitems, hs⟩
      refine ⟨items, bind_eq_ok.2 ⟨choices, hchoices, ?_⟩, hs⟩
      rw [if_pos htruthy]
      exact bind_eq_ok.2 ⟨choice, hchoice, hitems⟩
    · rename_i htruthy
      apply Triple.pure
      intro s hs
      refine ⟨[], bind_eq_ok.2 ⟨choices, hchoices, by rw [if_neg htruthy]; rfl⟩, ?_⟩
      rw [List.append_nil]
      exact hs

theorem addLine_reads (line : List Char) :
    Triple (Reads loads calls) (addLine loads line) (fun _ => Reads loads (calls ++ callsOfLine loads line))
      AnyFailure := by
  rw [addLine]
  split
  · rename_i hdata
    apply Triple.pure
    intro s hs
    rw [callsOfLine, hdata, List.append_nil]
    exact hs
  rename_i text hdata
  split
  · rename_i data hloads
    apply (addData_reads loads calls data).consequence (fun s hs => hs) _ fun _ _ _ => trivial
    rintro _ s ⟨items, hitems, hs⟩
    rw [callsOfLine, hdata]
    simp only [hloads, hitems]
    exact hs
  · rename_i hloads
    apply Triple.pure
    intro s hs
    rw [callsOfLine, hdata]
    simp only [hloads, List.append_nil]
    exact hs
  · exact Triple.throw fun s _ => trivial
  · exact Triple.throw fun s _ => trivial

end

theorem addChunks_reads (chunks : List String) (ending : Except Raised Unit) :
    Triple (Reads loads []) (addChunks loads chunks ending) (fun _ => Reads loads (callsIn loads chunks))
      AnyFailure := by
  rw [addChunks]
  have hlines : Triple (Reads loads []) (forEach (addLine loads) (chunks.flatMap linesOf))
      (fun _ => Reads loads (callsIn loads chunks)) AnyFailure := by
    have hprefix := Triple.forEachPrefix (I := fun lines => Reads loads (lines.flatMap (callsOfLine loads)))
      (E := AnyFailure) (fun before line => by
        apply (addLine_reads loads (before.flatMap (callsOfLine loads)) line).consequence (fun s hs => hs) _
          fun _ _ _ => trivial
        intro _ s hs
        rw [List.flatMap_append, List.flatMap_singleton]
        exact hs) (chunks.flatMap linesOf) []
    exact hprefix
  apply Triple.bind hlines
  intro _
  apply (raising_eq ending).consequence (fun s hs => hs) (fun _ s hs => hs.2) fun _ _ _ => trivial

theorem start_reads (model : String) (inputTokens : Json) : Reads loads [] (Stream.start model inputTokens) := by
  refine ⟨Tidy.start model inputTokens, [], ⟨[], 0⟩, rfl, ⟨?_, ?_, ?_⟩, rfl, rfl⟩
  · intro key _
    rfl
  · intro key tool hget
    cases hget
  · rintro key index ⟨id, name, hmem, -⟩
    cases List.mem_singleton.1 hmem

theorem endTool_quiet (s : Stream) (tool : Tool) : Quiet s (s.endTool tool) := by
  rw [Stream.endTool]
  split
  · exact Quiet.emit s (by simp [Event.Leads]) (fun _ => rfl) rfl rfl rfl rfl
  · exact Quiet.refl s

theorem endTools_quiet (tools : List Tool) (s : Stream) : Quiet s (tools.foldl (fun s tool => s.endTool tool) s) := by
  induction tools generalizing s with
  | nil => exact Quiet.refl s
  | cons tool rest ih => exact (endTool_quiet s tool).trans (ih _)

theorem endText_quiet (s : Stream) : Quiet s s.endText := by
  rw [Stream.endText]
  split
  · exact Quiet.emit s (by simp [Event.Leads]) (fun _ => rfl) rfl rfl rfl rfl
  · exact Quiet.refl s

theorem finish_quiet (h : Tidy none s) : Quiet s s.finish := by
  have hquiet := ((Quiet.closeThinking s).trans (endText_quiet _)).trans
    (endTools_quiet (s.closeThinking.endText.trackedToolCalls.map Prod.snd) _)
  have hdelta : ∀ (s : Stream) (reason : String) (usage : Dict), Quiet s (s.emit (.messageDelta reason usage)) :=
    fun s _ _ => Quiet.emit s (by simp [Event.Leads]) (fun _ => rfl) rfl rfl rfl rfl
  have hstop : ∀ s : Stream, Quiet s (s.emit .messageStop) :=
    fun s => Quiet.emit s (by simp [Event.Leads]) (fun _ => rfl) rfl rfl rfl rfl
  simp only [Stream.finish, h.closeThinking.1.flushTools]
  exact (hquiet.trans (hdelta _ _ _)).trans (hstop _)

theorem conserved_iff_sent
    {ledger : ToolKey → Carried} (h : Tracks Settled ledger s) (hget : s.trackedToolCalls.get key = some tool)
    (hc : ledger key = c) (hnamed : c.named = true) (hevents : s.out = events) (carried : String) :
    Conserved events key carried ↔ rstrip c.sent = rstrip carried := by
  subst hc hevents
  have hmatch := h.at hget
  constructor
  · rintro ⟨-, hall⟩
    rw [← hmatch.sent hnamed]
    exact hall _ (hmatch.block hnamed)
  intro hsent
  refine ⟨⟨tool.blockIndex, hmatch.block hnamed⟩, ?_⟩
  intro index hblock
  obtain ⟨tool', hget', -, hindex⟩ := h.blocks key index hblock
  rw [hget] at hget'
  cases hget'
  rw [← hindex, hmatch.sent hnamed]
  exact hsent

/-- The arguments are emitted in full exactly if only white space comes before the name or behind
complete arguments. -/
theorem arguments_conserved_iff (model : String) (inputTokens : Json) (chunks : List String)
    (ending : Except Raised Unit) (h : ErrorFree (openaiStreamToAnthropicStream loads model inputTokens chunks ending)) :
    (∀ key, (partsIn loads chunks key).any Part.named = true →
        Conserved (openaiStreamToAnthropicStream loads model inputTokens chunks ending) key
          (textOf (partsIn loads chunks key))) ↔
      ∀ key, (partsIn loads chunks key).any Part.named = true → Conserving loads (partsIn loads chunks key) := by
  have hread := addChunks_reads loads chunks ending _ (start_reads loads model inputTokens)
  rw [openaiStreamToAnthropicStream] at h ⊢
  cases hrun : addChunks loads chunks ending (Stream.start model inputTokens) with
  | error failure s =>
    rw [hrun] at h
    exact absurd (List.mem_append_right _ (List.mem_singleton.2 rfl)) (h failure.message)
  | ok _ s =>
    rw [hrun] at hread
    obtain ⟨htidy, pieces, r, hpieces, htracks, -⟩ := hread
    have hfinal : Tracks Settled (ledgerOf loads pieces) s.finish := htracks.quiet (finish_quiet htidy)
    have hparts : ∀ key, partsIn loads chunks key = partsOf key pieces := by
      intro key
      rw [partsIn, hpieces]
      rfl
    apply forall_congr'
    intro key
    rw [hparts]
    apply imp_congr_right
    intro hnamed
    have hledger : (ledgerOf loads pieces key).named = true := (accounts_after (partsOf key pieces)).named.trans hnamed
    -- a named call is tracked
    cases hget : s.finish.trackedToolCalls.get key with
    | none =>
      rw [hfinal.absent key hget] at hledger
      cases hledger
    | some tool =>
      rw [conserved_iff_sent hfinal hget rfl hledger rfl]
      exact rstrip_sent_iff hnamed

end Reading

/-! ### Sample streams -/

/-- The value of a chunk with one delta of the call `c`. -/
def sampleData (function : Dict) : Json :=
  .obj [("choices", .arr [.obj [("delta", .obj [("tool_calls", .arr [.obj [("id", .str "c"),
    ("function", .obj function)]])])]])]

def sampleTexts : List (String × Json) :=
  [("\x7b\"choices\":[\x7b\"delta\":\x7b\"tool_calls\":[\x7b\"id\":\"c\",\"function\":\x7b\"arguments\":\"\x7b\"\x7d\x7d]\x7d\x7d]\x7d",
      sampleData [("arguments", .str "\x7b")]),
    ("\x7b\"choices\":[\x7b\"delta\":\x7b\"tool_calls\":[\x7b\"id\":\"c\",\"function\":\x7b\"name\":\"f\",\"arguments\":\"\x7d\"\x7d\x7d]\x7d\x7d]\x7d",
      sampleData [("name", .str "f"), ("arguments", .str "\x7d")]),
    ("\x7b\"choices\":[\x7b\"delta\":\x7b\"tool_calls\":[\x7b\"id\":\"c\",\"function\":\x7b\"name\":\"f\",\"arguments\":\"\x7b\x7d\"\x7d\x7d]\x7d\x7d]\x7d",
      sampleData [("name", .str "f"), ("arguments", .str "\x7b\x7d")]),
    ("\x7b\x7d", .obj [])]

def sampleLoads (text : String) : Except LoadError Json :=
  match sampleTexts.lookup text with
  | some value => .ok value
  | none => .error .decode

def sampleChunk (n : ℕ) : String := "data: " ++ ((sampleTexts[n]?).map Prod.fst).getD ""

def earlyChunks : List String := [sampleChunk 0, sampleChunk 1]

def wholeChunks : List String := [sampleChunk 2]

def sampleStream (chunks : List String) : List Event :=
  openaiStreamToAnthropicStream sampleLoads "m" .null chunks (.ok ())

def sampleKey : ToolKey := .given (.str "c")

theorem arguments_conserved_whole :
    ErrorFree (sampleStream wholeChunks) ∧ ∀ key, (partsIn sampleLoads wholeChunks key).any Part.named = true →
      Conserved (sampleStream wholeChunks) key (textOf (partsIn sampleLoads wholeChunks key)) := by
  have hevents : sampleStream wholeChunks =
      [.messageStart "m" (.num 0), .blockStart 0 (.toolUse (.given (.str "c")) (.str "f")),
        .blockDelta 0 (.inputJson "\x7b\x7d"), .blockStop 0, .messageDelta "end_turn" [("output_tokens", .num 0)],
        .messageStop] := by rfl
  have herror : ErrorFree (sampleStream wholeChunks) := by
    intro message
    rw [hevents]
    simp
  have hpieces : ((piecesOf (callsIn sampleLoads wholeChunks)).map Prod.fst).toOption =
      some [⟨sampleKey, ⟨.str "f", "\x7b\x7d"⟩⟩] := by rfl
  refine ⟨herror, (arguments_conserved_iff sampleLoads "m" .null wholeChunks (.ok ()) herror).2 ?_⟩
  intro key hnamed
  rw [partsIn, hpieces, Option.getD_some] at hnamed ⊢
  by_cases hkey : sampleKey = key
  · subst hkey
    refine ⟨Or.inl rfl, ?_⟩
    intro earlier rest heq hany _ _
    -- the one delta is the earlier one
    cases earlier with
    | nil => cases hany
    | cons part earlier =>
      have hrest : rest = [] := by
        have hlength := congrArg List.length heq
        rw [List.cons_append, List.length_cons, List.length_append] at hlength
        have hone : (partsOf sampleKey [⟨sampleKey, ⟨.str "f", "\x7b\x7d"⟩⟩]).length = 1 := rfl
        exact List.length_eq_zero_iff.1 (by omega)
      rw [hrest]
      intro c hc
      cases hc
  · have hnone : partsOf key [⟨sampleKey, ⟨.str "f", "\x7b\x7d"⟩⟩] = [] := by
      simp [partsOf, hkey]
    rw [hnone] at hnamed
    cases hnamed

/-- What comes before the name is not emitted. -/
theorem early_arguments_lost :
    ErrorFree (sampleStream earlyChunks) ∧ (partsIn sampleLoads earlyChunks sampleKey).any Part.named = true ∧
      ¬ Conserved (sampleStream earlyChunks) sampleKey (textOf (partsIn sampleLoads earlyChunks sampleKey)) := by
  have hevents : sampleStream earlyChunks =
      [.messageStart "m" (.num 0), .blockStart 0 (.toolUse (.given (.str "c")) (.str "f")),
        .blockDelta 0 (.inputJson "\x7d"), .blockStop 0, .messageDelta "end_turn" [("output_tokens", .num 0)],
        .messageStop] := by rfl
  have hparts : partsIn sampleLoads earlyChunks sampleKey = [⟨.str "", "\x7b"⟩, ⟨.str "f", "\x7d"⟩] := by rfl
  refine ⟨?_, by rw [hparts]; decide, ?_⟩
  · intro message
    rw [hevents]
    simp
  · rintro ⟨-, hall⟩
    rw [hevents, hparts] at hall
    have hblock := hall 0 ⟨.given (.str "c"), .str "f", by simp, rfl⟩
    revert hblock
    decide

end RyanAI.Chat.AnthropicStream
