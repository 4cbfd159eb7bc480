import Torque.Text.Decimal
import Torque.Transition.Run

/-!
# The indices of a job array

A job array is requested by a text such as `0-9,15%4`.  The server decodes it into
the indices of the subjobs and creates them one after the other, when the number of
idle subjobs allows it.  The indices that are still to be created are not saved with
the array: after a restart they are decoded again from the saved range, and the ones
up to the saved `highest_id_created` are taken to be there already.

That mark is the index created last.  It separates what is created from what is not
for the ranges that ask for their indices in strictly ascending order, and for no
others.
-/

namespace Torque.JobArrays

open Torque.Text Torque.Transition List

/-! ## Decoding a range -/

/-- `is_whitespace`. -/
def isWhitespace (c : Char) : Bool :=
  c ∈ [' ', '\n', '\t', '\r', '\x0c']

/-- What stands between two entries of a range. -/
def isSeparator (c : Char) : Bool :=
  c = ',' || isWhitespace c

/-- The numbers from `prev` up to `curr`. -/
def indicesUpTo (prev curr : Int) : List Int :=
  (range (curr + 1 - prev).toNat).map fun k : Nat => prev + k

/-- The loop of `translate_range_string_to_vector` from `ptr` on.  The flag is false if
it was left at something that is not a range; the indices read before it stay. -/
def translateRanges : Nat → List Char → Bool × List Int
  | _, [] => (true, [])
  | 0, _ :: _ => (true, [])
  | fuel + 1, ptr@(_ :: _) =>
    let (first, next) := strtol ptr
    let prev := asInt first
    if next = ptr then (false, [])
    else
      match next with
      | '-' :: ptr =>
        if (ptr.headD ' ').isDigit then
          let (last, next) := strtol ptr
          let (rc, indices) := translateRanges fuel (next.dropWhile isSeparator)
          (rc, indicesUpTo prev (asInt last) ++ indices)
        else (false, [])
      | _ =>
        let (rc, indices) := translateRanges fuel (next.dropWhile isSeparator)
        (rc, prev :: indices)

/-- `translate_range_string_to_vector`. -/
def translateRangeStringToVector (rangeString : List Char) : Bool × List Int :=
  translateRanges rangeString.length (rangeString.dropWhile isWhitespace)

example : translateRangeStringToVector " 5, 1-3".toList = (true, [5, 1, 2, 3]) := by
  decide +kernel

example : translateRangeStringToVector "4,x".toList = (false, [4]) := by
  decide +kernel

/-- Every entry takes some of the text, so that the length of the text is enough fuel:
more does not change what is read. -/
theorem translateRanges_of_length_le {fuel more : Nat} {text : List Char}
    (enough : text.length ≤ fuel) (enough' : text.length ≤ more) :
    translateRanges fuel text = translateRanges more text := by
  induction fuel generalizing more text with
  | zero =>
    obtain rfl := length_eq_zero_iff.1 (Nat.le_zero.1 enough)
    cases more <;> rfl
  | succ fuel ih =>
    match text, more with
    | [], 0 => rfl
    | [], _ + 1 => rfl
    | c :: rest, more + 1 =>
      simp only [translateRanges]
      by_cases stuck : (strtol (c :: rest)).2 = c :: rest
      · rw [if_pos stuck, if_pos stuck]
      · have shorter := length_strtol_lt stuck
        rw [if_neg stuck, if_neg stuck]
        split
        · next ptr found =>
          have second := (strtol_suffix ptr).length_le
          have skipped := (dropWhile_suffix isSeparator (l := (strtol ptr).2)).length_le
          rw [@ih more _ (by grind) (by grind)]
        · have skipped := (dropWhile_suffix isSeparator
            (l := (strtol (c :: rest)).2)).length_le
          rw [@ih more _ (by grind) (by grind)]

/-! ## The array -/

/-- `NO_SLOT_LIMIT`. -/
def noSlotLimit : Int := -1

/-- The part of a `job_array` that decides which subjobs are created.  An entry of
`uncreatedIds` whose subjob was created is -1. -/
structure JobArray where
  rangeStr : List Char
  numJobs : Int
  arraySize : Int
  idleSlotLimit : Int
  numIdle : Int
  highestIdCreated : Int
  uncreatedIds : List Int
  beingDeleted : Bool
  deriving DecidableEq

/-- An array before its request is parsed; its idle slot limit is set already. -/
def JobArray.new (idleSlotLimit : Int) : JobArray where
  rangeStr := []
  numJobs := 0
  arraySize := 0
  idleSlotLimit := idleSlotLimit
  numIdle := 0
  highestIdCreated := -1
  uncreatedIds := []
  beingDeleted := false

/-- The request without its slot limit, which begins with a percent sign. -/
def withoutSlotLimit (request : List Char) : List Char :=
  request.takeWhile (· ≠ '%')

/-- `parse_array_request`: nothing if the request is refused.  `maxArraySize` is the
server's limit, if there is one; `granted` says whether the memory for the job ids could
be had, if its size is none that is below zero.  A request without an index is not refused:
the size is then made of `outside`, the number in front of the vector. -/
def parseArrayRequest (maxArraySize : Option Int) (granted : Bool) (outside : Int)
    (request : List Char) (pa : JobArray) : Option JobArray :=
  let rangeStr := withoutSlotLimit request
  match translateRangeStringToVector rangeStr with
  | (false, _) => none
  | (true, uncreatedIds) =>
    let arraySize := asInt (uncreatedIds.getLastD outside + 1)
    if maxArraySize.any fun limit => limit < (uncreatedIds.length : Int) then none
    else if granted && 0 ≤ arraySize then
      some { pa with
        rangeStr := rangeStr
        uncreatedIds := uncreatedIds
        numJobs := uncreatedIds.length
        arraySize := arraySize }
    else none

section

variable (pa : JobArray)

/-- `get_next_index_to_create`: the index and the place of its entry, nothing for -1. -/
def getNextIndexToCreate : Option (Int × Nat) :=
  if pa.beingDeleted = false ∧ (pa.idleSlotLimit = noSlotLimit ∨ pa.numIdle < pa.idleSlotLimit) then
    (pa.uncreatedIds.findIdx? (· ≠ -1)).map fun i => (pa.uncreatedIds.getD i (-1), i)
  else none

/-- `create_job_if_needed`.  The flag says whether the template job was found and its
clone could be queued. -/
def createJobIfNeeded (queued : Bool) (pa : JobArray) : JobArray :=
  match getNextIndexToCreate pa with
  | none => pa
  | some (nextIndex, uncreatedIdsIndex) =>
    if 0 ≤ nextIndex ∧ queued = true then
      { pa with
        uncreatedIds := pa.uncreatedIds.set uncreatedIdsIndex (-1)
        highestIdCreated := nextIndex
        numIdle := pa.numIdle + 1 }
    else pa

/-- `initialize_uncreated_ids`. -/
def initializeUncreatedIds : JobArray :=
  { pa with
    uncreatedIds :=
      (translateRangeStringToVector pa.rangeStr).2.filter (pa.highestIdCreated < ·) }

/-- What the array's file keeps of it. -/
structure SavedArray where
  rangeStr : List Char
  numJobs : Int
  arraySize : Int
  idleSlotLimit : Int
  numIdle : Int
  highestIdCreated : Int

/-- `array_info_xml`. -/
def arrayInfoXml : SavedArray where
  rangeStr := pa.rangeStr
  numJobs := pa.numJobs
  arraySize := pa.arraySize
  idleSlotLimit := pa.idleSlotLimit
  numIdle := pa.numIdle
  highestIdCreated := pa.highestIdCreated

/-- The array that a restarted server builds from the file. -/
def arrayRecover (saved : SavedArray) : JobArray :=
  initializeUncreatedIds
    { rangeStr := saved.rangeStr
      numJobs := saved.numJobs
      arraySize := saved.arraySize
      idleSlotLimit := saved.idleSlotLimit
      numIdle := saved.numIdle
      highestIdCreated := saved.highestIdCreated
      uncreatedIds := []
      beingDeleted := false }

/-- What happens to an array between its submission and its save. -/
inductive CreationEvent where
  /-- `create_job_if_needed` is called, and queuing the subjob succeeds or does not. -/
  | create (queued : Bool)
  /-- The number of idle subjobs changes. -/
  | idle (numIdle : Int)
  /-- The deletion of the array begins. -/
  | delete
  deriving DecidableEq

/-- One step of an array that creates its subjobs. -/
def creationStep : CreationEvent → JobArray
  | .create queued => createJobIfNeeded queued pa
  | .idle numIdle => { pa with numIdle := numIdle }
  | .delete => { pa with beingDeleted := true }

/-- The indices that are still to be created, in the order of their creation. -/
def waitingIds : List Int :=
  pa.uncreatedIds.filter (· ≠ -1)

end

/-! ## What a creation does to the waiting indices -/

section

variable {pa : JobArray} {i : Nat} {ids : List Int}

/-- Marking the first entry that is not marked takes the first index away. -/
theorem filter_set_findIdx (found : ids.findIdx? (· ≠ -1) = some i) :
    ids.filter (· ≠ -1) = ids.getD i (-1) :: (ids.set i (-1)).filter (· ≠ -1) := by
  induction ids generalizing i with
  | nil => cases found
  | cons id ids ih =>
    rw [findIdx?_cons] at found
    by_cases marked : id = -1
    · subst marked
      obtain ⟨j, foundLater, rfl⟩ := by simpa using found
      simpa using ih (i := j) (by simpa using foundLater)
    · obtain rfl : i = 0 := by simpa [marked, eq_comm] using found
      simp [marked]

/-- What the next creation does, if the idle subjobs allow one. -/
theorem getNextIndexToCreate_eq_some {nextIndex : Int}
    (next : getNextIndexToCreate pa = some (nextIndex, i)) :
    waitingIds pa = nextIndex :: (pa.uncreatedIds.set i (-1)).filter (· ≠ -1) := by
  unfold getNextIndexToCreate at next
  split at next
  · obtain ⟨j, found, equal⟩ := Option.map_eq_some_iff.1 next
    cases equal
    exact filter_set_findIdx found
  · cases next

/-- A step changes nothing of what decides the recovery, or it creates the first of the
waiting indices. -/
theorem creationStep_cases (pa : JobArray) (event : CreationEvent) :
    (creationStep pa event).rangeStr = pa.rangeStr ∧
      ((waitingIds (creationStep pa event) = waitingIds pa ∧
          (creationStep pa event).highestIdCreated = pa.highestIdCreated) ∨
        waitingIds pa =
          (creationStep pa event).highestIdCreated :: waitingIds (creationStep pa event)) := by
  cases event with
  | idle numIdle => exact ⟨rfl, .inl ⟨rfl, rfl⟩⟩
  | delete => exact ⟨rfl, .inl ⟨rfl, rfl⟩⟩
  | create queued =>
    dsimp only [creationStep]
    unfold createJobIfNeeded
    split
    · exact ⟨rfl, .inl ⟨rfl, rfl⟩⟩
    · rename_i next
      split
      · exact ⟨rfl, .inr (getNextIndexToCreate_eq_some next)⟩
      · exact ⟨rfl, .inl ⟨rfl, rfl⟩⟩

/-- As long as the array is not being deleted, its first waiting index can be created. -/
theorem exists_create {id : Int} (kept : pa.beingDeleted = false)
    (waiting : waitingIds pa = id :: ids) (valid : 0 ≤ id) :
    ∃ events, (run creationStep pa events).beingDeleted = false ∧
      (run creationStep pa events).highestIdCreated = id ∧
      waitingIds (run creationStep pa events) = ids := by
  obtain ⟨i, found⟩ : ∃ i, pa.uncreatedIds.findIdx? (· ≠ -1) = some i := by
    rw [← Option.isSome_iff_exists, findIdx?_isSome, any_eq_true]
    have mem : id ∈ waitingIds pa := by rw [waiting]; exact mem_cons_self
    exact ⟨id, mem_filter.1 mem⟩
  have split := filter_set_findIdx found
  rw [← waitingIds, waiting, cons.injEq] at split
  refine ⟨[.idle (pa.idleSlotLimit - 1), .create true], ?_⟩
  have next : getNextIndexToCreate { pa with numIdle := pa.idleSlotLimit - 1 } = some (id, i) := by
    unfold getNextIndexToCreate
    rw [if_pos ⟨kept, .inr (by dsimp only; omega)⟩, found, Option.map_some, ← split.1]
  have created : run creationStep pa [.idle (pa.idleSlotLimit - 1), .create true] =
      { pa with
        uncreatedIds := pa.uncreatedIds.set i (-1)
        highestIdCreated := id
        numIdle := pa.idleSlotLimit - 1 + 1 } := by
    simp only [run_cons, run_nil, creationStep]
    unfold createJobIfNeeded
    rw [next]
    exact if_pos ⟨valid, rfl⟩
  rw [created]
  exact ⟨kept, rfl, split.2.symm⟩

end

/-! ## Save and recovery -/

/-- The array after a save and a restart. -/
def restarted (pa : JobArray) : JobArray :=
  arrayRecover (arrayInfoXml pa)

variable {pa : JobArray} {ids : List Int} {maxArraySize : Option Int} {request : List Char}
  {granted : Bool} {outside : Int}

/-- The indices of a range, without the ones that read as created. -/
def requestedIds (rangeStr : List Char) : List Int :=
  (translateRangeStringToVector rangeStr).2.filter (· ≠ -1)

/-- The restart finds the indices above the mark. -/
theorem mem_waitingIds_restarted {id : Int} :
    id ∈ waitingIds (restarted pa) ↔ id ∈ requestedIds pa.rangeStr ∧ pa.highestIdCreated < id := by
  have found : (restarted pa).uncreatedIds =
      (translateRangeStringToVector pa.rangeStr).2.filter (pa.highestIdCreated < ·) := rfl
  rw [waitingIds, found]
  simp only [requestedIds, mem_filter, decide_eq_true_eq]
  tauto

/-- The restart finds the indices that were waiting. -/
def RestartKeeps (pa : JobArray) : Prop :=
  ∀ id, id ∈ waitingIds (restarted pa) ↔ id ∈ waitingIds pa

/-- The indices are asked for in ascending order, each of them once, and none is below
zero. -/
def Ascending (ids : List Int) : Prop :=
  ids.Pairwise (· < ·) ∧ ∀ id ∈ ids, 0 ≤ id
deriving Decidable

/-- What holds of an array while its indices are created in ascending order: the mark is
the last index created, -1 before the first one. -/
structure Marked (ids : List Int) (pa : JobArray) : Prop where
  range : requestedIds pa.rangeStr = ids
  split : ∃ created, ids = created ++ waitingIds pa ∧
    pa.highestIdCreated = created.getLastD (-1)

theorem Marked.step (marked : Marked ids pa) (event : CreationEvent) :
    Marked ids (creationStep pa event) := by
  obtain ⟨created, whole, mark⟩ := marked.split
  obtain ⟨sameRange, ⟨same, sameMark⟩ | first⟩ := creationStep_cases pa event
  · exact ⟨by rw [sameRange, marked.range], created, by rw [same, whole], by rw [sameMark, mark]⟩
  · refine ⟨by rw [sameRange, marked.range],
      created ++ [(creationStep pa event).highestIdCreated], ?_, ?_⟩
    · rw [whole, first, append_assoc, singleton_append]
    · rw [getLastD_concat]

/-- The mark separates the indices that are created from the others. -/
theorem Marked.restartKeeps (marked : Marked ids pa) (ascending : Ascending ids) :
    RestartKeeps pa := by
  obtain ⟨created, whole, mark⟩ := marked.split
  obtain ⟨sorted, valid⟩ := ascending
  intro id
  rw [mem_waitingIds_restarted, marked.range]
  have parts := whole ▸ sorted
  rw [pairwise_append] at parts
  rcases created.eq_nil_or_concat' with rfl | ⟨before, last, rfl⟩
  · rw [nil_append] at whole
    rw [← whole, mark, getLastD_nil]
    exact and_iff_left_of_imp fun mem => by have := valid id mem; omega
  · rw [mark, getLastD_concat]
    constructor
    · rintro ⟨mem, above⟩
      rw [whole] at mem
      rcases mem_append.1 mem with early | waiting
      · have upTo : id ≤ last := by
          rcases mem_append.1 early with early | isLast
          · exact ((pairwise_append.1 parts.1).2.2 id early last mem_cons_self).le
          · exact (mem_singleton.1 isLast).le
        omega
      · exact waiting
    · intro waiting
      refine ⟨whole ▸ mem_append_right _ waiting, ?_⟩
      exact parts.2.2 last (mem_append_right _ mem_cons_self) id waiting

/-- If a restart keeps the waiting indices whenever it comes, they are above the mark and
in ascending order. -/
theorem ascending_of_restartKeeps (kept : pa.beingDeleted = false)
    (waiting : waitingIds pa = ids) (valid : -1 ≤ pa.highestIdCreated)
    (keeps : ∀ events, RestartKeeps (run creationStep pa events)) :
    ids.Pairwise (· < ·) ∧ ∀ id ∈ ids, pa.highestIdCreated < id := by
  have above : ∀ id ∈ ids, pa.highestIdCreated < id := by
    intro id mem
    exact (mem_waitingIds_restarted.1 ((keeps [] id).2 (waiting ▸ mem))).2
  refine ⟨?_, above⟩
  -- The first index can be created, and then it is the mark that the others are above.
  induction ids generalizing pa with
  | nil => exact .nil
  | cons id ids ih =>
    have first := above id mem_cons_self
    obtain ⟨events, stillKept, mark, rest⟩ := exists_create kept waiting (by omega)
    have later : ∀ more, RestartKeeps (run creationStep (run creationStep pa events) more) := by
      intro more
      rw [← run_append]
      exact keeps _
    have aboveFirst : ∀ other ∈ ids, id < other := by
      intro other mem
      rw [← mark]
      exact (mem_waitingIds_restarted.1 ((later [] other).2 (rest ▸ mem))).2
    exact .cons aboveFirst (ih stillKept rest (by omega) later (mark ▸ aboveFirst))

/-- What an accepted request makes of an array. -/
theorem parseArrayRequest_eq_some {pa' : JobArray}
    (accepted : parseArrayRequest maxArraySize granted outside request pa = some pa') :
    ∃ ids, translateRangeStringToVector (withoutSlotLimit request) = (true, ids) ∧
      0 ≤ asInt (ids.getLastD outside + 1) ∧
      pa' = { pa with
        rangeStr := withoutSlotLimit request
        uncreatedIds := ids
        numJobs := ids.length
        arraySize := asInt (ids.getLastD outside + 1) } := by
  unfold parseArrayRequest at accepted
  dsimp only at accepted
  split at accepted
  · cases accepted
  · next ids decoded =>
    split at accepted
    · cases accepted
    · split at accepted
      · next fits =>
        cases accepted
        exact ⟨ids, decoded, by simpa using (Bool.and_eq_true_iff.mp fits).2, rfl⟩
      · cases accepted

/-- What an accepted request leaves in a new array. -/
theorem parseArrayRequest_new {idleSlotLimit : Int}
    (accepted : parseArrayRequest maxArraySize granted outside request (.new idleSlotLimit) =
      some pa) :
    pa.rangeStr = withoutSlotLimit request ∧ waitingIds pa = requestedIds pa.rangeStr ∧
      pa.highestIdCreated = -1 ∧ pa.beingDeleted = false := by
  obtain ⟨ids, decoded, -, rfl⟩ := parseArrayRequest_eq_some accepted
  refine ⟨rfl, ?_, rfl, rfl⟩
  rw [requestedIds, decoded]
  rfl

/-- The index that an event creates, if any. -/
def createdBy (pa : JobArray) (event : CreationEvent) : List Int :=
  match event, getNextIndexToCreate pa with
  | .create true, some (nextIndex, _) => if 0 ≤ nextIndex then [nextIndex] else []
  | _, _ => []

/-- The indices that are created one after the other while the array goes through events. -/
def createdIds (pa : JobArray) : List CreationEvent → List Int
  | [] => []
  | event :: events => createdBy pa event ++ createdIds (creationStep pa event) events

theorem createdBy_append_waitingIds (pa : JobArray) (event : CreationEvent) :
    createdBy pa event ++ waitingIds (creationStep pa event) = waitingIds pa := by
  cases event with
  | idle numIdle => rfl
  | delete => rfl
  | create queued =>
    dsimp only [creationStep]
    unfold createJobIfNeeded createdBy
    cases next : getNextIndexToCreate pa with
    | none => cases queued <;> rfl
    | some found =>
      cases queued with
      | false => simp
      | true =>
        by_cases valid : 0 ≤ found.1
        · simp only [valid, and_self, if_true]
          exact (getNextIndexToCreate_eq_some next).symm
        · simp [valid]

/-- The indices of a range are `int`s. -/
theorem translateRanges_int (fuel : Nat) (text : List Char) :
    ∀ id ∈ (translateRanges fuel text).2, -2 ^ 31 ≤ id ∧ id < 2 ^ 31 := by
  have int (n : Int) : -2 ^ 31 ≤ asInt n ∧ asInt n < 2 ^ 31 :=
    ⟨Int.le_bmod (by decide), Int.bmod_lt (by decide)⟩
  induction fuel generalizing text with
  | zero => cases text <;> simp [translateRanges]
  | succ fuel ih =>
    cases text with
    | nil => simp [translateRanges]
    | cons c rest =>
      simp only [translateRanges]
      split
      · simp
      · split
        · split
          · intro id mem
            rcases mem_append.mp mem with here | later
            · obtain ⟨k, inside, rfl⟩ := mem_map.mp here
              have first := (int (strtol (c :: rest)).1).1
              have last := fun ptr => (int (strtol ptr).1).2
              have upTo := mem_range.mp inside
              grind
            · exact ih _ id later
          · simp
        · intro id mem
          rcases mem_cons.mp mem with rfl | later
          · exact int _
          · exact ih _ id later

/-- There is a subjob, `num_jobs` is the number of indices to create, and the table of job ids
has a place for each of them. -/
def HasPlaces (pa : JobArray) : Prop :=
  1 ≤ pa.numJobs ∧ pa.numJobs = (waitingIds pa).length ∧
    ∀ id ∈ waitingIds pa, 0 ≤ id ∧ id < pa.arraySize

/-- Behind the greatest `int` the size would be below zero. -/
theorem arraySize_of_last {last : Int} (int : -2 ^ 31 ≤ last ∧ last < 2 ^ 31)
    (fits : 0 ≤ asInt (last + 1)) : asInt (last + 1) = last + 1 := by
  have inside : last + 1 < 2 ^ 31 := by
    by_contra beyond
    obtain rfl : last = 2 ^ 31 - 1 := by omega
    exact absurd fits (by decide)
  rw [asInt, Int.bmod_eq_of_le] <;> omega

/-- The subjobs still to be created survive a save and a recovery, however many were
created before and whatever else happened, exactly if the request asks for its indices in
ascending order: the mark in the file is the index created last. -/
theorem restart_keeps_iff_ascending (maxArraySize : Option Int) (granted : Bool) (outside : Int)
    (request : List Char) (idleSlotLimit : Int) (pa : JobArray)
    (accepted : parseArrayRequest maxArraySize granted outside request (.new idleSlotLimit) =
      some pa) :
    (∀ events, RestartKeeps (run creationStep pa events)) ↔
      Ascending (requestedIds (withoutSlotLimit request)) := by
  obtain ⟨range, waiting, mark, kept⟩ := parseArrayRequest_new accepted
  rw [← range]
  constructor
  · intro keeps
    obtain ⟨sorted, above⟩ := ascending_of_restartKeeps kept waiting (by omega) keeps
    exact ⟨sorted, fun id mem => by have := above id mem; omega⟩
  · intro ascending events
    have start : Marked (requestedIds pa.rangeStr) pa :=
      ⟨rfl, [], by rw [waiting, nil_append], mark⟩
    have reached := run_invariant (Marked (requestedIds pa.rangeStr)) start
      (fun _ event marked => marked.step event) events
    exact reached.restartKeeps ascending

theorem restart_keeps_iff_ascending_range :
    Ascending (requestedIds (withoutSlotLimit "1-3%2".toList)) ∧
      ∀ events, RestartKeeps (run creationStep
        { JobArray.new 300 with
          rangeStr := "1-3".toList
          numJobs := 3
          arraySize := 4
          uncreatedIds := [1, 2, 3] } events) :=
  have ascending : Ascending (requestedIds (withoutSlotLimit "1-3%2".toList)) := by decide +kernel
  ⟨ascending,
    (restart_keeps_iff_ascending (some 1000) true 0 "1-3%2".toList 300 _ (by decide +kernel)).2
      ascending⟩

/-- Of the request `5,1-3` the subjob 5 is created first, and then a restart finds none of
the others. -/
theorem restart_loses_smaller_ids :
    ¬ ∀ (maxArraySize : Option Int) (granted : Bool) (outside : Int) (request : List Char)
      (idleSlotLimit : Int) (pa : JobArray),
      parseArrayRequest maxArraySize granted outside request (.new idleSlotLimit) = some pa →
      ∀ events, RestartKeeps (run creationStep pa events) := by
  intro keeps
  have first := keeps none true 0 "5,1-3".toList 300
    { JobArray.new 300 with
      rangeStr := "5,1-3".toList
      numJobs := 4
      arraySize := 4
      uncreatedIds := [5, 1, 2, 3] } (by decide +kernel) [.create true] 1
  exact absurd (first.2 (by decide +kernel)) (by decide +kernel)

end Torque.JobArrays
