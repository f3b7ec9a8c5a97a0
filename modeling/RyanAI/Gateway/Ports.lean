import RyanAI.Lib.Machine
import RyanAI.Lib.Pairing
import RyanAI.Lib.Utf16

/-!
# The ports of the gateway processes

`allocatePort` and `releasePort` of `bot-gateway/src/adapters/openclaw.ts`. A connection is given the first port,
from one that its id is hashed to and around the range, that nobody owns and that is not blocked. The two maps
`assignedPorts` and `portOwners` stay inverse to each other over all calls (`Sound.run`), and the probe finds a port
whenever there is one (`exists_probe`), so that `allocatePort` throws only if none is left (`ports_bijective`).
-/

namespace RyanAI.Gateway.Ports

open Lib Lib.Machine Lib.Utf16

/-- A text of the runtime, such as the id of a connection. -/
abbrev Text := List UInt16

/-- The fields of the adapter that the two methods use. -/
structure PortMaps where
  assignedPorts : KeyedTable Text ℤ
  portOwners : KeyedTable ℤ Text
  blockedPorts : Finset ℤ

/-- `hashCode`: 32 bits with wrap-around over the first code units of the characters, read without a sign. -/
def hashCode (value : Text) : ℕ :=
  ((points value).foldl
    (fun (hash : BitVec 32) char => (hash <<< 5) - hash + BitVec.ofNat 32 ((char.head?.map UInt16.toNat).getD 0))
    0).toNat

def minimum : ℤ := 1024

def span : ℤ := 65535 - minimum + 1

/-- Where the probe of `allocatePort` starts; `%` takes the sign of its left side. -/
def start (openClawPort : ℤ) (connectionId : Text) : ℤ := (openClawPort - minimum + hashCode connectionId).tmod span

/-- The port of one attempt. -/
def portOf (start : ℤ) (attempt : ℕ) : ℤ := minimum + (start + attempt).tmod span

/-- The condition of the loop. -/
def PortMaps.isFree (s : PortMaps) (port : ℤ) : Bool := (s.portOwners.get port).isNone && port ∉ s.blockedPorts

/-- The `for` loop of `allocatePort`, with `rounds` attempts left. -/
def probe (s : PortMaps) (start : ℤ) : ℕ → ℕ → Option ℤ
  | 0, _ => none
  | rounds + 1, attempt =>
    if s.isFree (portOf start attempt) then some (portOf start attempt) else probe s start rounds (attempt + 1)

/-- `allocatePort`: the port and the maps afterwards, or the message of the error. -/
def allocatePort (openClawPort : ℤ) (s : PortMaps) (connectionId : Text) : Except String (ℤ × PortMaps) :=
  match s.assignedPorts.get connectionId with
  | some existing => .ok (existing, s)
  | none =>
    match probe s (start openClawPort connectionId) span.toNat 0 with
    | some port =>
      .ok (port, { s with
        assignedPorts := s.assignedPorts.set connectionId port
        portOwners := s.portOwners.set port connectionId })
    | none => .error "No OpenClaw ports are available"

/-- `releasePort`. -/
def releasePort (s : PortMaps) (connectionId : Text) : PortMaps :=
  match s.assignedPorts.get connectionId with
  | none => s
  | some port =>
    { s with
      assignedPorts := s.assignedPorts.delete connectionId
      portOwners := if s.portOwners.get port = some connectionId then s.portOwners.delete port else s.portOwners }

/-- A call of one of the methods; `block` is whatever else the adapter does to `blockedPorts`. -/
inductive Call where
  | allocate (connectionId : Text)
  | release (connectionId : Text)
  | block (blockedPorts : Finset ℤ)

/-- A call that throws leaves the maps as they are. -/
def perform (openClawPort : ℤ) (s : PortMaps) : Call → PortMaps
  | .allocate connectionId =>
    match allocatePort openClawPort s connectionId with
    | .ok (_, s') => s'
    | .error _ => s
  | .release connectionId => releasePort s connectionId
  | .block blockedPorts => { s with blockedPorts := blockedPorts }

def run (openClawPort : ℤ) (s : PortMaps) (calls : List Call) : PortMaps := calls.foldl (perform openClawPort) s

/-- A new adapter has given no ports away. -/
def empty : PortMaps := ⟨.empty, .empty, ∅⟩

/-! ## The probe -/

/-- A port of the range. -/
def InRange (port : ℤ) : Prop := 1024 ≤ port ∧ port ≤ 65535

variable {openClawPort first port : ℤ} {s : PortMaps} {id : Text}

theorem start_bounds (h : 1024 ≤ openClawPort) (connectionId : Text) :
    0 ≤ start openClawPort connectionId ∧ start openClawPort connectionId < 64512 := by
  have hspan : span = 64512 := rfl
  have hnonneg : 0 ≤ openClawPort - minimum + hashCode connectionId := by
    rw [minimum]
    omega
  rw [start, Int.tmod_eq_emod_of_nonneg hnonneg, hspan]
  omega

theorem portOf_eq (h : 0 ≤ first) (attempt : ℕ) : portOf first attempt = 1024 + (first + attempt) % 64512 := by
  rw [portOf, Int.tmod_eq_emod_of_nonneg (by omega)]
  rfl

theorem inRange_portOf (h : 0 ≤ first) (attempt : ℕ) : InRange (portOf first attempt) := by
  rw [InRange, portOf_eq h]
  omega

/-- The attempts go over the whole range, wherever they start. -/
theorem exists_attempt (h : 0 ≤ first ∧ first < 64512) (hport : InRange port) :
    ∃ attempt < 64512, portOf first attempt = port := by
  obtain ⟨hlow, hhigh⟩ := hport
  by_cases hbefore : first ≤ port - 1024
  · refine ⟨(port - 1024 - first).toNat, by omega, ?_⟩
    rw [portOf_eq h.1]
    omega
  · -- the port is reached after the wrap
    refine ⟨(port - 1024 - first + 64512).toNat, by omega, ?_⟩
    rw [portOf_eq h.1]
    omega

theorem probe_spec (s : PortMaps) (first : ℤ) (rounds attempt : ℕ) :
    (∃ i < rounds, probe s first rounds attempt = some (portOf first (attempt + i)) ∧
      s.isFree (portOf first (attempt + i))) ∨
    (probe s first rounds attempt = none ∧ ∀ i < rounds, s.isFree (portOf first (attempt + i)) = false) := by
  induction rounds generalizing attempt with
  | zero => exact .inr ⟨rfl, by omega⟩
  | succ rounds ih =>
    rw [probe]
    by_cases hfree : s.isFree (portOf first attempt) = true
    · rw [if_pos hfree]
      exact .inl ⟨0, Nat.succ_pos rounds, rfl, hfree⟩
    rw [if_neg hfree]
    rcases ih (attempt + 1) with ⟨i, hi, heq, hi'⟩ | ⟨hnone, hall⟩
    · refine .inl ⟨i + 1, by omega, ?_⟩
      rw [Nat.add_right_comm, Nat.add_assoc] at heq hi'
      exact ⟨heq, hi'⟩
    · refine .inr ⟨hnone, ?_⟩
      intro i hi
      cases i with
      | zero => simpa using hfree
      | succ i =>
        have hnext := hall i (by omega)
        rwa [Nat.add_right_comm, Nat.add_assoc] at hnext

theorem probe_eq_some {attempt : ℕ} (hfirst : 0 ≤ first) (h : probe s first rounds attempt = some port) :
    InRange port ∧ s.isFree port = true := by
  rcases probe_spec s first rounds attempt with ⟨i, _, heq, hfree⟩ | ⟨hnone, _⟩
  · rw [h, Option.some.injEq] at heq
    rw [heq]
    exact ⟨inRange_portOf hfirst _, hfree⟩
  · rw [h] at hnone
    cases hnone

/-- The probe is complete: it fails only where no port of the range is free. -/
theorem isFree_of_probe_eq_none (hfirst : 0 ≤ first ∧ first < 64512)
    (h : probe s first span.toNat 0 = none) (hport : InRange port) : s.isFree port = false := by
  rcases probe_spec s first span.toNat 0 with ⟨_, _, heq, _⟩ | ⟨_, hall⟩
  · rw [h] at heq
    cases heq
  · obtain ⟨attempt, hattempt, rfl⟩ := exists_attempt hfirst hport
    have hfree := hall attempt hattempt
    rwa [Nat.zero_add] at hfree

theorem isFree_eq_false : s.isFree port = false ↔ (s.portOwners.get port).isSome ∨ port ∈ s.blockedPorts := by
  rw [PortMaps.isFree]
  cases s.portOwners.get port with
  | none => simp
  | some owner => simp

/-! ## One call -/

/-- What `allocatePort` can do. -/
theorem allocatePort_cases (hbase : 1024 ≤ openClawPort) (s : PortMaps) (id : Text) :
    (∃ port, s.assignedPorts.get id = some port ∧ allocatePort openClawPort s id = .ok (port, s)) ∨
    (∃ port, s.assignedPorts.get id = none ∧ InRange port ∧ s.portOwners.get port = none ∧ port ∉ s.blockedPorts ∧
      allocatePort openClawPort s id = .ok (port, { s with
        assignedPorts := s.assignedPorts.set id port, portOwners := s.portOwners.set port id })) ∨
    (s.assignedPorts.get id = none ∧
      (∀ port, InRange port → (s.portOwners.get port).isSome ∨ port ∈ s.blockedPorts) ∧
      allocatePort openClawPort s id = .error "No OpenClaw ports are available") := by
  have hstart := start_bounds hbase id
  rw [allocatePort]
  cases hget : s.assignedPorts.get id with
  | some existing => exact .inl ⟨existing, rfl, rfl⟩
  | none =>
    cases hprobe : probe s (start openClawPort id) span.toNat 0 with
    | some port =>
      obtain ⟨hrange, hfree⟩ := probe_eq_some hstart.1 hprobe
      simp only [PortMaps.isFree, Bool.and_eq_true, Option.isNone_iff_eq_none, decide_eq_true_eq] at hfree
      exact .inr (.inl ⟨port, rfl, hrange, hfree.1, hfree.2, rfl⟩)
    | none =>
      refine .inr (.inr ⟨rfl, ?_, rfl⟩)
      intro port hport
      exact isFree_eq_false.1 (isFree_of_probe_eq_none hstart hprobe hport)

/-- The two maps tell the same. -/
def Sound (s : PortMaps) : Prop := Inverse s.assignedPorts s.portOwners

theorem releasePort_eq (hs : Sound s) (hport : s.assignedPorts.get id = some port) : releasePort s id =
      { s with assignedPorts := s.assignedPorts.delete id, portOwners := s.portOwners.delete port } := by
  have howner := (hs id port).1 hport
  rw [releasePort, hport]
  simp only [howner, if_true]

namespace Sound

theorem perform (hbase : 1024 ≤ openClawPort) (hs : Sound s) (call : Call) : Sound (perform openClawPort s call) := by
  cases call with
  | allocate id =>
    rcases allocatePort_cases hbase s id with ⟨port, _, heq⟩ | ⟨port, hid, _, howner, _, heq⟩ | ⟨_, _, heq⟩
    · simp only [Ports.perform, heq]
      exact hs
    · simp only [Ports.perform, heq]
      exact hs.link hid howner
    · simp only [Ports.perform, heq]
      exact hs
  | release id =>
    rw [Ports.perform]
    cases hget : s.assignedPorts.get id with
    | none =>
      rw [releasePort, hget]
      exact hs
    | some port =>
      rw [releasePort_eq hs hget]
      exact hs.unlink hget
  | block blockedPorts => exact hs

theorem run (hbase : 1024 ≤ openClawPort) (hs : Sound s) (calls : List Call) : Sound (run openClawPort s calls) := by
  induction calls generalizing s with
  | nil => exact hs
  | cons call rest ih => exact ih (hs.perform hbase call)

end Sound

theorem sound_empty : Sound empty := Inverse.empty

/-- A call that does not release the connection leaves its port alone. -/
theorem keeps_perform (hs : Sound s) (hbase : 1024 ≤ openClawPort) (hport : s.assignedPorts.get id = some port)
    {call : Call} (hcall : call ≠ .release id) : (perform openClawPort s call).assignedPorts.get id = some port := by
  cases call with
  | allocate other =>
    rcases allocatePort_cases hbase s other with ⟨_, _, heq⟩ | ⟨new, hnone, _, _, _, heq⟩ | ⟨_, _, heq⟩
    · simpa only [perform, heq] using hport
    · have hne : id ≠ other := by
        rintro rfl
        rw [hnone] at hport
        cases hport
      simpa only [perform, heq, KeyedTable.get_set, if_neg hne] using hport
    · simpa only [perform, heq] using hport
  | release other =>
    have hne : id ≠ other := by
      rintro rfl
      exact hcall rfl
    rw [perform]
    cases hget : s.assignedPorts.get other with
    | none =>
      rw [releasePort, hget]
      exact hport
    | some otherPort =>
      rw [releasePort_eq hs hget]
      simpa only [KeyedTable.get_delete, if_neg hne] using hport
  | block blockedPorts => exact hport

theorem keeps_run (hs : Sound s) (hbase : 1024 ≤ openClawPort) (hport : s.assignedPorts.get id = some port)
    {calls : List Call} (hcalls : .release id ∉ calls) :
    (run openClawPort s calls).assignedPorts.get id = some port := by
  induction calls generalizing s with
  | nil => exact hport
  | cons call rest ih =>
    rw [List.mem_cons, not_or] at hcalls
    obtain ⟨hcall, hrest⟩ := hcalls
    exact ih (hs.perform hbase call) (keeps_perform hs hbase hport (Ne.symm hcall)) hrest

/-! ## Every sequence of calls -/

/-- What holds after any calls: the maps are inverse to each other, an allocation returns the port that the
connection has, or a new one that is in the range and free, or throws because there is none, and until a connection
is released it keeps its port. -/
structure Assigned (openClawPort : ℤ) (s : PortMaps) : Prop where
  inverse : ∀ id port, s.assignedPorts.get id = some port ↔ s.portOwners.get port = some id
  existing : ∀ id port, s.assignedPorts.get id = some port → allocatePort openClawPort s id = .ok (port, s)
  new : ∀ id port s', s.assignedPorts.get id = none → allocatePort openClawPort s id = .ok (port, s') →
    1024 ≤ port ∧ port ≤ 65535 ∧ port ∉ s.blockedPorts ∧ s.portOwners.get port = none ∧
      s'.assignedPorts.get id = some port
  throws : ∀ id e, allocatePort openClawPort s id = .error e →
    ∀ port, 1024 ≤ port → port ≤ 65535 → (s.portOwners.get port).isSome ∨ port ∈ s.blockedPorts
  keeps : ∀ id port, s.assignedPorts.get id = some port → ∀ calls, .release id ∉ calls →
    (run openClawPort s calls).assignedPorts.get id = some port

theorem ports_bijective (openClawPort : ℤ) (hlow : 1024 ≤ openClawPort) (calls : List Call) :
    Assigned openClawPort (run openClawPort empty calls) := by
  have hs := sound_empty.run hlow calls
  generalize run openClawPort empty calls = s at hs
  refine ⟨hs, ?_, ?_, ?_, fun id port hport calls hcalls => keeps_run hs hlow hport hcalls⟩
  · intro id port hport
    rw [allocatePort, hport]
  · intro id port s' hnone hok
    rcases allocatePort_cases hlow s id with ⟨_, hsome, _⟩ | ⟨new, _, hrange, howner, hblocked, heq⟩ | ⟨_, _, heq⟩
    · rw [hnone] at hsome
      cases hsome
    · rw [heq] at hok
      cases hok
      exact ⟨hrange.1, hrange.2, hblocked, howner, by simp⟩
    · rw [heq] at hok
      cases hok
  · intro id e herror port hport hport'
    rcases allocatePort_cases hlow s id with ⟨_, _, heq⟩ | ⟨_, _, _, _, _, heq⟩ | ⟨_, hall, _⟩
    · rw [heq] at herror
      cases herror
    · rw [heq] at herror
      cases herror
    · exact hall port ⟨hport, hport'⟩

theorem ports_bijective_default :
    Assigned 18789 (run 18789 empty [.allocate [97], .allocate [98], .release [97], .block {18885}]) :=
  ports_bijective 18789 (by decide) _

end RyanAI.Gateway.Ports
