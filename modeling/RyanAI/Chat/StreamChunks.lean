import Mathlib
import RyanAI.Lib.Terminated

/-!
# Lines of a provider stream

`stream_chunks_handler` puts the lines of a provider's answer together from the chunks in which its bytes arrive. A
line over the configured size is dropped, also while it is still arriving: then its first bytes are thrown away and a
flag remembers to drop the rest. `streamChunksHandler_eq` states that what is yielded depends on the bytes alone: the
complete lines within the size, each with its newline, and then the unterminated rest if it is within the size.
-/

namespace RyanAI.Chat.StreamChunks

open RyanAI.Lib

abbrev Bytes := List UInt8

/-- `b'\n'`. -/
def newline : UInt8 := 10

/-- `max_buffer_size` for the configured value; `none` is infinite. -/
def maxBufferSize : Option Int → Option Nat
  | none => none
  | some size => if size ≤ 0 then none else some size.toNat

/-- `len(data) > max_buffer_size`. -/
def exceeds (max : Option Nat) (data : Bytes) : Bool :=
  match max with
  | none => false
  | some size => size < data.length

/-- The variables of `yield_safe_stream_chunks` and what it has yielded. -/
structure Assembly where
  buffer : Bytes
  droppingLineTail : Bool
  yielded : List Bytes
deriving DecidableEq

def Assembly.start : Assembly := ⟨[], false, []⟩

/-- One line of `for line in lines`. -/
def Assembly.line (max : Option Nat) (s : Assembly) (line : Bytes) : Assembly :=
  if s.droppingLineTail then { s with droppingLineTail := false }
  else if exceeds max line then s
  else { s with yielded := s.yielded ++ [line ++ [newline]] }

/-- `*lines, rest = bytes(buffer).split(b'\n')` and the loop over the lines. -/
def Assembly.split (max : Option Nat) (s : Assembly) : Assembly :=
  let parts := s.buffer.splitOn newline
  parts.dropLast.foldl (Assembly.line max) { s with buffer := parts.getLastD [] }

def Assembly.clear (max : Option Nat) (s : Assembly) : Assembly :=
  if exceeds max s.buffer then { s with droppingLineTail := true, buffer := [] } else s

def Assembly.chunk (max : Option Nat) (s : Assembly) (data : Bytes) : Assembly :=
  if data.isEmpty then s
  else
    let s := { s with buffer := s.buffer ++ data }
    (if data.contains newline then s.split max else s).clear max

def Assembly.finish (s : Assembly) : List Bytes :=
  if !s.buffer.isEmpty && !s.droppingLineTail then s.yielded ++ [s.buffer] else s.yielded

/-- What `stream_chunks_handler` yields for a stream that arrives in `chunks`. -/
def streamChunksHandler (setting : Option Int) (chunks : List Bytes) : List Bytes :=
  (chunks.foldl (Assembly.chunk (maxBufferSize setting)) Assembly.start).finish

def fittingLines (max : Option Nat) (stream : Bytes) : List Bytes :=
  let rest := restOf newline stream
  ((fieldsOf newline stream).filter fun line => !exceeds max line).map (· ++ [newline]) ++
    if rest ≠ [] ∧ exceeds max rest = false then [rest] else []

variable {max : Option Nat} {data stream : Bytes} {s : Assembly}

theorem exceeds_append (h : exceeds max data = true) (more : Bytes) : exceeds max (data ++ more) = true := by
  cases max with
  | none => cases h
  | some size =>
    simp only [exceeds, decide_eq_true_eq, List.length_append] at h ⊢
    omega

/-! ## One chunk -/

/-- The lines that are yielded out of `lines`. -/
def emitted (max : Option Nat) (lines : List Bytes) : List Bytes :=
  (lines.filter fun line => !exceeds max line).map (· ++ [newline])

theorem emitted_append (max : Option Nat) (lines lines' : List Bytes) :
    emitted max (lines ++ lines') = emitted max lines ++ emitted max lines' := by
  rw [emitted, List.filter_append, List.map_append]
  rfl

theorem emitted_cons_of_exceeds {line : Bytes} (h : exceeds max line = true) (lines : List Bytes) :
    emitted max (line :: lines) = emitted max lines := by
  rw [emitted, List.filter_cons_of_neg (by simp [h])]
  rfl

theorem foldl_line (max : Option Nat) (lines yielded : List Bytes) (buffer : Bytes) :
    lines.foldl (Assembly.line max) ⟨buffer, false, yielded⟩ = ⟨buffer, false, yielded ++ emitted max lines⟩ := by
  induction lines generalizing yielded with
  | nil => simp [emitted]
  | cons line rest ih =>
    rw [List.foldl_cons, Assembly.line, if_neg Bool.false_ne_true]
    by_cases hline : exceeds max line = true
    · rw [if_pos hline, ih, emitted_cons_of_exceeds hline]
    · rw [if_neg hline, ih]
      simp [emitted, hline]

/-- What the variables say; under the flag the bytes of an oversized line are lost. -/
structure Assembled (max : Option Nat) (stream : Bytes) (s : Assembly) : Prop where
  yielded : s.yielded = emitted max (fieldsOf newline stream)
  flag : s.droppingLineTail = exceeds max (restOf newline stream)
  buffer : s.droppingLineTail = false → s.buffer = restOf newline stream
  line : newline ∉ s.buffer

theorem assembled_start (max : Option Nat) : Assembled max [] Assembly.start where
  yielded := rfl
  flag := by cases max <;> rfl
  buffer _ := rfl
  line := List.not_mem_nil

theorem Assembled.clear (hyielded : s.yielded = emitted max (fieldsOf newline stream)) (hline : newline ∉ s.buffer)
    (hflag : s.droppingLineTail = true → exceeds max (restOf newline stream) = true)
    (hbuffer : s.droppingLineTail = false → s.buffer = restOf newline stream) :
    Assembled max stream (s.clear max) := by
  rw [Assembly.clear]
  by_cases hover : exceeds max s.buffer = true
  · rw [if_pos hover]
    refine ⟨hyielded, ?_, fun hset => (by cases hset), List.not_mem_nil⟩
    cases hdropping : s.droppingLineTail with
    | true => exact (hflag hdropping).symm
    | false => rw [← hbuffer hdropping, hover]
  · rw [if_neg hover]
    refine ⟨hyielded, ?_, hbuffer, hline⟩
    cases hdropping : s.droppingLineTail with
    | true => exact (hflag hdropping).symm
    | false => rw [← hbuffer hdropping, Bool.eq_false_iff.2 hover]

section

variable (h : Assembled max stream s)

include h

theorem Assembled.chunk_without (hdata : newline ∉ data) :
    Assembled max (stream ++ data) ({ s with buffer := s.buffer ++ data }.clear max) := by
  have hsplit := splitOn_append_without hdata stream
  have hrest : restOf newline (stream ++ data) = restOf newline stream ++ data := restOf_eq_of_splitOn hsplit
  apply Assembled.clear
  · rw [fieldsOf_eq_of_splitOn hsplit]
    exact h.yielded
  · rw [List.mem_append, not_or]
    exact ⟨h.line, hdata⟩
  · intro hdropping
    rw [hrest]
    exact exceeds_append (h.flag ▸ hdropping) data
  · intro hdropping
    rw [hrest, ← h.buffer hdropping]

theorem Assembled.chunk_with (hdata : newline ∈ data) :
    Assembled max (stream ++ data) (({ s with buffer := s.buffer ++ data }.split max).clear max) := by
  obtain ⟨first, others, hfields, hstream⟩ := splitOn_append_with hdata stream
  have hbuffer : (s.buffer ++ data).splitOn newline =
      ((s.buffer ++ first) :: others) ++ [restOf newline data] := by
    rw [splitOn_append_of_not_mem h.line, splitOn_eq, hfields]
    rfl
  have hrest : restOf newline (stream ++ data) = restOf newline data := restOf_eq_of_splitOn hstream
  have hlines : fieldsOf newline (stream ++ data) =
      fieldsOf newline stream ++ (restOf newline stream ++ first) :: others := fieldsOf_eq_of_splitOn hstream
  have hsplit : { s with buffer := s.buffer ++ data }.split max =
      ⟨restOf newline data, false, emitted max (fieldsOf newline (stream ++ data))⟩ := by
    rw [Assembly.split, hbuffer, List.dropLast_concat, List.getLastD_concat, hlines, emitted_append, ← h.yielded]
    cases hdropping : s.droppingLineTail with
    | true =>
      have hover := exceeds_append (h.flag ▸ hdropping) first
      rw [emitted_cons_of_exceeds hover, List.foldl_cons, Assembly.line, if_pos rfl, foldl_line]
    | false => rw [← h.buffer hdropping, foldl_line]
  rw [hsplit]
  apply Assembled.clear
  · rfl
  · exact not_mem_restOf newline data
  · intro hdropping
    cases hdropping
  · intro _
    exact hrest.symm

theorem Assembled.chunk (data : Bytes) : Assembled max (stream ++ data) (s.chunk max data) := by
  rw [Assembly.chunk]
  by_cases hempty : data.isEmpty = true
  · rw [if_pos hempty, List.isEmpty_iff.1 hempty, List.append_nil]
    exact h
  · rw [if_neg hempty]
    by_cases hdata : newline ∈ data
    · simpa [hdata] using h.chunk_with hdata
    · simpa [hdata] using h.chunk_without hdata

theorem Assembled.chunks (chunks : List Bytes) :
    Assembled max (stream ++ chunks.flatten) (chunks.foldl (Assembly.chunk max) s) := by
  induction chunks generalizing stream s with
  | nil => simpa using h
  | cons data rest ih =>
    rw [List.foldl_cons, List.flatten_cons, ← List.append_assoc]
    exact ih (h.chunk data)

theorem Assembled.finish : s.finish = fittingLines max stream := by
  rw [Assembly.finish, fittingLines, h.yielded, emitted]
  cases hdropping : s.droppingLineTail with
  | true => simp [← h.flag, hdropping]
  | false =>
    rw [h.buffer hdropping, ← h.flag, hdropping]
    by_cases hrest : restOf newline stream = [] <;> simp [hrest]

end

/-- However the stream is divided, the lines within the size are yielded in order, and then the
rest. -/
theorem streamChunksHandler_eq (setting : Option Int) (chunks : List Bytes) :
    streamChunksHandler setting chunks = fittingLines (maxBufferSize setting) chunks.flatten := by
  have hrun := (assembled_start (maxBufferSize setting)).chunks chunks
  rw [List.nil_append] at hrun
  exact hrun.finish

-- `abc\nd\n` with at most two bytes a line, divided inside the first line
example : streamChunksHandler (some 2) [[97, 98], [], [99, 10, 100], [10]] = [[100, 10]] := by decide

end RyanAI.Chat.StreamChunks
