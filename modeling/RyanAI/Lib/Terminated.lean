import RyanAI.Lib.NumericText

/-!
# Terminated fields

A list of fields written one after the other, each followed by a separator. Where no field has the separator in it, the
fields can be read back (`terminated_inj`), by splitting the whole at the separator (`splitOn_terminated`).

A text that arrives piece by piece has its complete fields (`fieldsOf`) and what follows the last separator (`restOf`).
More text goes on from the rest: it makes the rest longer while it has no separator in it (`splitOn_append_without`),
and else completes it (`splitOn_append_with`).
-/

namespace RyanAI.Lib

def nul : Char := Char.ofNat 0

variable {α : Type}

def terminated (sep : α) (fields : List (List α)) : List α := fields.flatMap fun field => field ++ [sep]

theorem terminated_cons (sep : α) (field : List α) (fields : List (List α)) :
    terminated sep (field :: fields) = field ++ sep :: terminated sep fields := by
  rw [terminated, List.flatMap_cons, List.append_assoc, List.singleton_append]
  rfl

variable {sep : α} {fields : List (List α)}

theorem terminated_inj (h : ∀ field ∈ fields, sep ∉ field)
    (h' : ∀ field ∈ fields', sep ∉ field) (heq : terminated sep fields = terminated sep fields') :
    fields = fields' := by
  induction fields generalizing fields' with
  | nil =>
    cases fields' with
    | nil => rfl
    | cons field' rest' =>
      rw [terminated_cons] at heq
      simp [terminated] at heq
  | cons field rest ih =>
    cases fields' with
    | nil =>
      rw [terminated_cons] at heq
      simp [terminated] at heq
    | cons field' rest' =>
      rw [terminated_cons, terminated_cons] at heq
      have hmem : ∀ f : List α, sep ∉ f → ∀ c ∈ f, c ≠ sep := fun f hf c hc heq => hf (heq ▸ hc)
      obtain ⟨hfield, hrest⟩ := NumericText.span_unique (hmem field (h field List.mem_cons_self))
        (hmem field' (h' field' List.mem_cons_self)) (by simp) (by simp) heq
      have hrest := (List.cons.inj hrest).2
      have htail := ih (List.forall_mem_of_forall_mem_cons h)
        (fun f hf => h' f (List.mem_cons_of_mem _ hf)) hrest
      rw [hfield, htail]

theorem terminated_append (sep : α) (fields fields' : List (List α)) :
    terminated sep (fields ++ fields') = terminated sep fields ++ terminated sep fields' := by
  rw [terminated, List.flatMap_append]
  rfl

theorem splitOn_terminated [BEq α] [LawfulBEq α] (h : ∀ field ∈ fields, sep ∉ field) :
    (terminated sep fields).splitOn sep = fields ++ [[]] := by
  induction fields with
  | nil => rfl
  | cons field rest ih =>
    have hrest := ih fun f hf => h f (List.mem_cons_of_mem _ hf)
    rw [terminated_cons, List.splitOn_append_cons_self_of_not_mem (h field List.mem_cons_self), hrest, List.cons_append]

/-! ## Fields that arrive piece by piece -/

section Arrival

variable [BEq α]

def fieldsOf (sep : α) (text : List α) : List (List α) := (text.splitOn sep).dropLast

def restOf (sep : α) (text : List α) : List α := (text.splitOn sep).getLastD []

theorem splitOn_eq (sep : α) (text : List α) : text.splitOn sep = fieldsOf sep text ++ [restOf sep text] := by
  rcases List.eq_nil_or_concat (text.splitOn sep) with hnil | ⟨fields, rest, hsplit⟩
  · exact absurd hnil (List.splitOn_ne_nil sep text)
  · rw [fieldsOf, restOf, hsplit, List.concat_eq_append, List.dropLast_concat, List.getLastD_concat]

theorem fieldsOf_eq_of_splitOn (h : text.splitOn sep = fields ++ [rest]) : fieldsOf sep text = fields := by
  rw [fieldsOf, h, List.dropLast_concat]

theorem restOf_eq_of_splitOn (h : text.splitOn sep = fields ++ [rest]) : restOf sep text = rest := by
  rw [restOf, h, List.getLastD_concat]

theorem splitOn_append (sep : α) (text more : List α) :
    (text ++ more).splitOn sep = fieldsOf sep text ++ (restOf sep text ++ more).splitOn sep := by
  induction text with
  | nil => rfl
  | cons c text ih =>
    have htext := splitOn_eq sep text
    by_cases hc : (c == sep) = true
    · have hcons : (c :: text).splitOn sep = ([] :: fieldsOf sep text) ++ [restOf sep text] := by
        rw [List.splitOn_cons_eq_if_modifyHead, if_pos hc, htext, List.cons_append]
      rw [fieldsOf_eq_of_splitOn hcons, restOf_eq_of_splitOn hcons, List.cons_append, List.cons_append,
        List.splitOn_cons_eq_if_modifyHead, if_pos hc, ih]
    cases hfields : fieldsOf sep text with
    | nil =>
      rw [hfields] at htext ih
      have hcons : (c :: text).splitOn sep = [] ++ [c :: restOf sep text] := by
        rw [List.splitOn_cons_eq_if_modifyHead, if_neg hc, htext]
        rfl
      rw [fieldsOf_eq_of_splitOn hcons, restOf_eq_of_splitOn hcons, List.cons_append, List.cons_append,
        List.splitOn_cons_eq_if_modifyHead, List.splitOn_cons_eq_if_modifyHead, if_neg hc, if_neg hc, ih]
      rfl
    | cons field fields =>
      rw [hfields] at htext ih
      have hcons : (c :: text).splitOn sep = ((c :: field) :: fields) ++ [restOf sep text] := by
        rw [List.splitOn_cons_eq_if_modifyHead, if_neg hc, htext]
        rfl
      rw [fieldsOf_eq_of_splitOn hcons, restOf_eq_of_splitOn hcons, List.cons_append,
        List.splitOn_cons_eq_if_modifyHead, if_neg hc, ih]
      rfl

variable [LawfulBEq α]

theorem not_mem_of_mem_splitOn {path : List α} {segment : List α} (h : segment ∈ path.splitOn sep) : sep ∉ segment := by
  induction path generalizing segment with
  | nil =>
    rw [List.splitOn_nil, List.mem_singleton] at h
    rw [h]
    exact List.not_mem_nil
  | cons x rest ih =>
    rw [List.splitOn_cons_eq_if_modifyHead] at h
    obtain ⟨first, others, hsplit⟩ := List.exists_cons_of_ne_nil (List.splitOn_ne_nil sep rest)
    split at h
    · rcases List.mem_cons.1 h with rfl | hmem
      · exact List.not_mem_nil
      · exact ih hmem
    rename_i hx
    rw [hsplit, List.modifyHead_cons] at h
    rcases List.mem_cons.1 h with rfl | hmem
    · have hfirst := ih (hsplit ▸ List.mem_cons_self)
      rw [List.mem_cons, not_or]
      exact ⟨fun heq => hx (by rw [heq]; exact BEq.refl x), hfirst⟩
    · exact ih (hsplit ▸ List.mem_cons_of_mem first hmem)

theorem not_mem_restOf (sep : α) (text : List α) : sep ∉ restOf sep text := by
  have hmem : restOf sep text ∈ text.splitOn sep := by
    rw [splitOn_eq]
    exact List.mem_append_right _ List.mem_cons_self
  exact not_mem_of_mem_splitOn hmem

theorem splitOn_append_of_not_mem (h : sep ∉ front) (text : List α) :
    (front ++ text).splitOn sep = (text.splitOn sep).modifyHead (front ++ ·) := by
  obtain ⟨first, others, hsplit⟩ := List.exists_cons_of_ne_nil (List.splitOn_ne_nil sep text)
  rw [hsplit, List.modifyHead_cons]
  induction front with
  | nil => exact hsplit
  | cons c rest ih =>
    rw [List.mem_cons, not_or] at h
    have hc : (c == sep) = false := by simpa using Ne.symm h.1
    rw [List.cons_append, List.splitOn_cons_eq_if_modifyHead, hc, ih h.2]
    rfl

theorem splitOn_append_without (h : sep ∉ more) (text : List α) :
    (text ++ more).splitOn sep = fieldsOf sep text ++ [restOf sep text ++ more] := by
  have hnot : sep ∉ restOf sep text ++ more := by
    rw [List.mem_append, not_or]
    exact ⟨not_mem_restOf sep text, h⟩
  rw [splitOn_append, List.splitOn_eq_singleton hnot]

theorem splitOn_append_with (h : sep ∈ more) (text : List α) : ∃ first others, fieldsOf sep more = first :: others ∧
      (text ++ more).splitOn sep =
        (fieldsOf sep text ++ (restOf sep text ++ first) :: others) ++ [restOf sep more] := by
  have hmore := splitOn_eq sep more
  cases hfields : fieldsOf sep more with
  | nil =>
    rw [hfields, List.nil_append] at hmore
    have hwhole : [sep].intercalate (more.splitOn sep) = more := List.intercalate_splitOn sep
    rw [hmore, List.intercalate_singleton] at hwhole
    have hnot := not_mem_restOf sep more
    rw [hwhole] at hnot
    exact absurd h hnot
  | cons first others =>
    refine ⟨first, others, rfl, ?_⟩
    rw [splitOn_append, splitOn_append_of_not_mem (not_mem_restOf sep text), hmore, hfields, List.cons_append,
      List.modifyHead_cons, List.append_assoc, List.cons_append]

end Arrival

end RyanAI.Lib
