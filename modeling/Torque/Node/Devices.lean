import Torque.Structure.Tally
import Torque.Text.Decimal
import Torque.Transition.Run

/-!
# The accelerators of a node

A node counts the GPUs that are not in use and the MICs that hold no job.  Jobs are placed on
them and leave them, and the administrator changes their numbers.  GPUs are created and deleted
one at a time, and their counter follows.  The number of MICs is set at once, and the counter is
raised with it but never lowered.  All these counters are of type `short`.
-/

namespace Torque.Node

open Torque.Structure Torque.Text Torque.Transition List

/-- `gpusubn`.  The id -1 of no job is `none`. -/
structure Gpusubn where
  jobInternalId : Option Nat := none
  inuse : Bool := false

/-- The accelerators of a `pbsnode`, none at first.  The counters are `short`s. -/
structure Devices where
  ngpus : Int := 0
  gpusn : List Gpusubn := []
  ngpusFree : Int := 0
  nmics : Int := 0
  micjobids : List (Option Nat) := []
  nmicsAlloced : Int := 0
  nmicsFree : Int := 0

namespace Devices

variable (np : Devices)

/-! ## GPUs -/

/-- `create_a_gpusubnode`. -/
def createAGpusubnode : Devices :=
  { np with
    gpusn := np.gpusn ++ [{}]
    ngpus := asShort (np.ngpus + 1)
    ngpusFree := asShort (np.ngpusFree + 1) }

/-- `delete_a_gpusubnode`. -/
def deleteAGpusubnode : Devices :=
  match np.gpusn.getLast? with
  | none => np
  | some tmp =>
    { np with
      ngpusFree := if tmp.inuse then np.ngpusFree else asShort (np.ngpusFree - 1)
      ngpus := asShort (np.ngpus - 1)
      gpusn := np.gpusn.dropLast }

/-- `node_gpus_action` when the attribute is altered; `none` is `PBSE_BADATVAL`. -/
def nodeGpusAction (newGp : Int) : Option Devices :=
  if newGp ≤ 0 then none
  else if newGp < np.ngpus then some (deleteAGpusubnode^[(np.ngpus - newGp).toNat] np)
  else some (createAGpusubnode^[(newGp - np.ngpus).toNat] np)

/-- `add_job_to_gpu_subnode`. -/
def addJobToGpuSubnode (j job : Nat) : Devices :=
  { np with gpusn := np.gpusn.set j ⟨some job, true⟩, ngpusFree := asShort (np.ngpusFree - 1) }

/-- `place_gpus_in_hostlist`, with what is still needed in the end. -/
def placeGpusInHostlist (job gpuNeeded : Nat) (unavailable : Nat → Bool) : Devices × Nat :=
  (range np.ngpus.toNat).foldl (fun (np, gpuNeeded) j =>
    match np.gpusn[j]? with
    | none => (np, gpuNeeded)
    | some gn =>
      if gpuNeeded = 0 ∨ gn.inuse ∨ unavailable j then (np, gpuNeeded)
      else (np.addJobToGpuSubnode j job, gpuNeeded - 1)) (np, gpuNeeded)

/-- `remove_job_from_nodes_gpus`, for a job with or without `exec_gpus`. -/
def removeJobFromNodesGpus (job : Nat) (execGpus : Bool) : Devices :=
  if execGpus then
    (range np.ngpus.toNat).foldl (fun np i =>
      if np.gpusn[i]?.bind Gpusubn.jobInternalId = some job then
        { np with gpusn := np.gpusn.set i {}, ngpusFree := asShort (np.ngpusFree + 1) }
      else np) np
  else np

/-! ## MICs -/

/-- `node_mics_action` when the attribute is altered; `none` is `PBSE_BADATVAL`. -/
def nodeMicsAction (newMics : Int) : Option Devices :=
  if newMics ≤ 0 then none
  else if newMics > np.nmics then
    some { np with
      nmics := asShort newMics
      nmicsFree := asShort (np.nmicsFree + (newMics - np.nmics))
      micjobids := np.micjobids ++ replicate (newMics - np.nmicsAlloced).toNat none
      nmicsAlloced := if newMics > np.nmicsAlloced then asShort newMics else np.nmicsAlloced }
  else some { np with nmics := asShort newMics }

/-- `add_job_to_mic`; `none` if there is a job already. -/
def addJobToMic (index job : Nat) : Option Devices :=
  if np.micjobids[index]? = some none then
    some { np with
      micjobids := np.micjobids.set index (some job), nmicsFree := asShort (np.nmicsFree - 1) }
  else none

/-- `place_mics_in_hostlist`, with what is still needed in the end. -/
def placeMicsInHostlist (job micNeeded : Nat) : Devices × Nat :=
  (range np.nmics.toNat).foldl (fun (np, micNeeded) i =>
    if micNeeded = 0 then (np, micNeeded)
    else ((np.addJobToMic i job).map (·, micNeeded - 1)).getD (np, micNeeded)) (np, micNeeded)

/-- `remove_job_from_nodes_mics`. -/
def removeJobFromNodesMics (job : Nat) : Devices :=
  (range np.nmics.toNat).foldl (fun np i =>
    if np.micjobids[i]? = some (some job) then
      { np with micjobids := np.micjobids.set i none, nmicsFree := asShort (np.nmicsFree + 1) }
    else np) np

/-! ## Runs -/

/-- Jobs are placed and released, and the attributes get values, each an `int`. -/
inductive Event where
  | placeGpus (job gpuNeeded : Nat) (unavailable : Nat → Bool)
  | placeMics (job micNeeded : Nat)
  | release (job : Nat) (execGpus : Bool)
  | gpus (newGp : Int)
  | mics (newMics : Int)

/-- What happens to the accelerators; a change that is refused leaves them alone. -/
def step : Event → Devices
  | .placeGpus job gpuNeeded unavailable => (np.placeGpusInHostlist job gpuNeeded unavailable).1
  | .placeMics job micNeeded => (np.placeMicsInHostlist job micNeeded).1
  | .release job execGpus => (np.removeJobFromNodesGpus job execGpus).removeJobFromNodesMics job
  | .gpus newGp => (np.nodeGpusAction newGp).getD np
  | .mics newMics => (np.nodeMicsAction newMics).getD np

/-- The number of MICs is not lowered, and the numbers are `short`s. -/
def Raises : Event → Prop
  | .gpus newGp => newGp < 2 ^ 15
  | .mics newMics => newMics ≤ 0 ∨ np.nmics ≤ newMics ∧ newMics < 2 ^ 15
  | _ => True

/-- The counters of what is free are right. -/
def FreeCounted : Prop :=
  np.ngpusFree = np.gpusn.countP (!·.inuse) ∧
    np.nmicsFree = (np.micjobids.take np.nmics.toNat).countP Option.isNone
deriving Decidable

variable {np}

/-- Moreover a GPU that has a job is in use, there is one entry for each MIC, and the numbers are
`short`s. -/
structure Sound (np : Devices) : Prop where
  fewGpus : np.gpusn.length < 2 ^ 15
  fewMics : np.micjobids.length < 2 ^ 15
  ngpus : np.ngpus = np.gpusn.length
  ngpusFree : np.ngpusFree = np.gpusn.countP (!·.inuse)
  used : ∀ gn ∈ np.gpusn, gn.jobInternalId ≠ none → gn.inuse = true
  nmics : np.nmics = np.micjobids.length
  nmicsAlloced : np.nmicsAlloced = np.nmics
  nmicsFree : np.nmicsFree = np.micjobids.countP Option.isNone

namespace Sound

variable (sound : Sound np)
include sound

theorem setGpu {i : Nat} {gn new : Gpusubn} (found : np.gpusn[i]? = some gn) {free : Int}
    (used : new.jobInternalId ≠ none → new.inuse = true)
    (counted : free + (!gn.inuse).toNat = np.ngpusFree + (!new.inuse).toNat) :
    Sound { np with gpusn := np.gpusn.set i new, ngpusFree := asShort free } where
  __ := sound
  fewGpus := by simpa using sound.fewGpus
  ngpus := by simpa using sound.ngpus
  ngpusFree := by
    have count := countP_set_add (!·.inuse) new found
    have before := sound.ngpusFree
    have few := @countP_le_length _ (!·.inuse) (np.gpusn.set i new)
    have all := sound.fewGpus
    rw [length_set] at few
    dsimp only
    rw [asShort_of_lt] <;> omega
  used := by
    intro other mem
    rcases mem_or_eq_of_mem_set mem with old | rfl
    · exact sound.used other old
    · exact used

theorem setMic {i : Nat} {old new : Option Nat} (found : np.micjobids[i]? = some old) {free : Int}
    (counted : free + old.isNone.toNat = np.nmicsFree + new.isNone.toNat) :
    Sound { np with micjobids := np.micjobids.set i new, nmicsFree := asShort free } where
  __ := sound
  fewMics := by simpa using sound.fewMics
  nmics := by simpa using sound.nmics
  nmicsFree := by
    have count := countP_set_add Option.isNone new found
    have before := sound.nmicsFree
    have few := @countP_le_length _ Option.isNone (np.micjobids.set i new)
    have all := sound.fewMics
    rw [length_set] at few
    dsimp only
    rw [asShort_of_lt] <;> omega

theorem createAGpusubnode (few : np.gpusn.length + 1 < 2 ^ 15) :
    Sound np.createAGpusubnode where
  __ := sound
  fewGpus := by simpa [Devices.createAGpusubnode] using few
  ngpus := by
    have number := sound.ngpus
    simp only [Devices.createAGpusubnode, length_append, length_singleton]
    rw [asShort_of_lt] <;> omega
  ngpusFree := by
    have count := sound.ngpusFree
    have idle := @countP_le_length _ (!·.inuse) np.gpusn
    simp only [Devices.createAGpusubnode, countP_append]
    rw [asShort_of_lt (by omega) (by omega), count]
    rfl
  used := by
    intro gn mem held
    rcases mem_append.mp mem with old | new
    · exact sound.used gn old held
    · rw [mem_singleton.mp new] at held
      contradiction

theorem deleteAGpusubnode : Sound np.deleteAGpusubnode := by
  unfold Devices.deleteAGpusubnode
  split
  · exact sound
  next tmp last =>
    obtain ⟨front, split⟩ := getLast?_eq_some_iff.mp last
    have few := sound.fewGpus
    have number := sound.ngpus
    have count := sound.ngpusFree
    have idle := @countP_le_length _ (!·.inuse) front
    rw [split] at few number count ⊢
    rw [length_append, length_singleton] at few number
    rw [countP_append, countP_singleton] at count
    rw [dropLast_concat]
    refine { sound with fewGpus := ?_, ngpus := ?_, ngpusFree := ?_, used := ?_ }
    · dsimp only
      omega
    · dsimp only
      rw [asShort_of_lt] <;> omega
    · cases inuse : tmp.inuse with
      | true => simpa [inuse] using count
      | false =>
        simp only [inuse, Bool.not_false, if_true] at count
        simp only [Bool.false_eq_true, if_false]
        rw [asShort_of_lt] <;> omega
    · exact fun gn mem => sound.used gn (split ▸ mem_append_left _ mem)

omit sound in
/-- GPUs are created as long as their number is a `short`. -/
theorem createGpus (n : Nat) {np : Devices} (sound : Sound np)
    (few : np.gpusn.length + n < 2 ^ 15) :
    Sound (Devices.createAGpusubnode^[n] np) := by
  induction n generalizing np with
  | zero => exact sound
  | succ n ih =>
    apply ih (sound.createAGpusubnode (by omega))
    simp only [Devices.createAGpusubnode, length_append, length_singleton]
    omega

variable (job : Nat)

theorem placeGpusInHostlist (gpuNeeded : Nat) (unavailable : Nat → Bool) :
    Sound (np.placeGpusInHostlist job gpuNeeded unavailable).1 := by
  refine run_invariant (fun s : Devices × Nat => Sound s.1) sound ?_ (range np.ngpus.toNat)
  rintro ⟨np, gpuNeeded⟩ j sound
  dsimp only
  split
  · exact sound
  next gn found =>
    split
    · exact sound
    next free =>
      have idle : gn.inuse = false := by simpa using (not_or.mp (not_or.mp free).2).1
      exact sound.setGpu found (fun _ => rfl) (by simp [idle])

theorem removeJobFromNodesGpus (execGpus : Bool) :
    Sound (np.removeJobFromNodesGpus job execGpus) := by
  unfold Devices.removeJobFromNodesGpus
  split
  · refine run_invariant Sound sound ?_ (range np.ngpus.toNat)
    intro np i sound
    split
    next mine =>
      obtain ⟨gn, found, held⟩ := Option.bind_eq_some_iff.mp mine
      have inuse := sound.used gn (mem_of_getElem? found) (by simp [held])
      exact sound.setGpu found (fun held => absurd rfl held) (by simp [inuse])
    · exact sound
  · exact sound

theorem placeMicsInHostlist (micNeeded : Nat) : Sound (np.placeMicsInHostlist job micNeeded).1 := by
  refine run_invariant (fun s : Devices × Nat => Sound s.1) sound ?_ (range np.nmics.toNat)
  rintro ⟨np, micNeeded⟩ i sound
  dsimp only
  split
  · exact sound
  · unfold addJobToMic
    split
    next vacant => exact sound.setMic vacant (by simp)
    · exact sound

theorem removeJobFromNodesMics : Sound (np.removeJobFromNodesMics job) := by
  refine run_invariant Sound sound ?_ (range np.nmics.toNat)
  intro np i sound
  split
  next mine => exact sound.setMic mine (by simp)
  · exact sound

theorem nodeGpusAction {newGp : Int} (small : newGp < 2 ^ 15) :
    Sound ((np.nodeGpusAction newGp).getD np) := by
  unfold Devices.nodeGpusAction
  split
  · exact sound
  split
  · exact Function.Iterate.rec Sound sound (fun _ => deleteAGpusubnode) _
  · have number := sound.ngpus
    exact createGpus _ sound (by omega)

theorem nodeMicsAction {newMics : Int}
    (raises : newMics ≤ 0 ∨ np.nmics ≤ newMics ∧ newMics < 2 ^ 15) :
    Sound ((np.nodeMicsAction newMics).getD np) := by
  have number := sound.nmics
  have alloced := sound.nmicsAlloced
  have free := sound.nmicsFree
  unfold Devices.nodeMicsAction
  split
  · exact sound
  next positive =>
    obtain ⟨least, small⟩ := raises.resolve_left positive
    split
    next more =>
      have idle := @countP_le_length _ Option.isNone np.micjobids
      have fits : asShort newMics = newMics := asShort_of_lt (by omega) small
      have counted : asShort (np.nmicsFree + (newMics - np.nmics)) =
          np.nmicsFree + (newMics - np.nmics) :=
        asShort_of_lt (by omega) (by omega)
      rw [Option.getD_some, fits, counted, if_pos (by omega)]
      refine { sound with fewMics := ?_, nmics := ?_, nmicsAlloced := rfl, nmicsFree := ?_ }
      all_goals
        simp [countP_replicate]
        omega
    · have same : newMics = np.nmics := by omega
      have fits : asShort newMics = np.nmics := by
        rw [same, asShort_of_lt] <;> omega
      rw [fits]
      exact sound

/-- Every step that does not lower the number of MICs keeps the counters right. -/
theorem step (event : Event) (raises : np.Raises event) : Sound (np.step event) := by
  cases event with
  | placeGpus => exact sound.placeGpusInHostlist ..
  | placeMics => exact sound.placeMicsInHostlist ..
  | release => exact (sound.removeJobFromNodesGpus ..).removeJobFromNodesMics _
  | gpus newGp => exact sound.nodeGpusAction raises
  | mics newMics => exact sound.nodeMicsAction raises

end Sound

/-- As long as the number of MICs is never lowered and all numbers are `short`s, the counters are
right. -/
theorem free_devices_counted (events : List Event)
    (raises : Admissible step Raises {} events) : FreeCounted (run step {} events) := by
  have sound : Sound (run step {} events) :=
    invariant Sound ⟨by decide, by decide, rfl, rfl, by simp, rfl, rfl, rfl⟩
      (fun _ event sound raises => sound.step event raises) raises
  refine ⟨sound.ngpusFree, ?_⟩
  rw [sound.nmics, Int.toNat_natCast, take_length]
  exact sound.nmicsFree

theorem free_devices_counted_five :
    let events := [.gpus 2, .mics 1, .placeGpus 7 1 fun _ => false, .placeMics 7 1, .release 7 true]
    Admissible step Raises {} events ∧ FreeCounted (run step {} events) := by
  intro events
  have raises : Admissible step Raises {} events :=
    ⟨(by decide : (2 : Int) < 2 ^ 15), .inr (by decide), trivial, trivial, trivial, trivial⟩
  exact ⟨raises, free_devices_counted events raises⟩

/-- Two MICs, one less, and two again: now three are free. -/
theorem free_mics_after_lowering :
    ¬ ∀ events, FreeCounted (run step {} events) := by
  intro always
  have wrong : ¬ FreeCounted (run step {} [.mics 2, .mics 1, .mics 2]) := by decide
  exact wrong (always _)

end Devices

end Torque.Node
