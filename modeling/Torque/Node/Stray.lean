import Torque.Node.ExecHost

/-!
# Stray jobs

A mother superior reports the jobs on its node.  `job_should_be_killed` decides
whether a reported job is a stray one: it is not if the node holds a usage record
of it, or if its `exec_host` lists the node.

Usage records are looked for only in the node itself, even if it has NUMA boards,
and the end of the list is not recognised behind the name of a node.
-/

namespace Torque.Node

open List

/-- What is read of a node that reports a job. -/
structure ReportingNode where
  name : NodeName
  ndJobUsages : List JobUsageInfo
  /-- The usage records of the NUMA boards, by their numbers. -/
  nodeBoards : List (List JobUsageInfo)

/-- What is read of a job of the server. -/
structure ReportedJob where
  execHost : Option (List Char)
  loginNodeId : Option (List Char)

/-- `check_node_for_job`. -/
def checkNodeForJob (usages : List JobUsageInfo) (internalJobId : Nat) : Bool :=
  usages.any fun jui => internalJobId = jui.internalJobId

/-- `is_job_on_node`.  The loop over the boards looks at the node each time. -/
def isJobOnNode (pnode : ReportingNode) (internalJobId : Nat) : Bool :=
  if pnode.nodeBoards.length > 0 then
    pnode.nodeBoards.any fun _ => checkNodeForJob pnode.ndJobUsages internalJobId
  else checkNodeForJob pnode.ndJobUsages internalJobId

/-- The character behind the name ends it.  The end of the text does not, because
the source compares the pointer and not what it points to. -/
def endsName (rest : List Char) : Bool :=
  rest.head? = some '+' || rest.head? = some '/'

/-- The loop over the places at which `strstr` finds the name; `prev` is the
character in front of the text. -/
def findName (nodeName : List Char) : Option Char → List Char → Bool
  | _, [] => false
  | prev, c :: rest =>
    if nodeName.isPrefixOf (c :: rest) && (prev = none || prev = some '+') &&
        endsName ((c :: rest).drop nodeName.length) then
      true
    else findName nodeName (some c) rest

/-- `node_in_exechostlist`. -/
def nodeInExechostlist (crayEnabled : Bool) (nodeName : NodeName) (nodeEhl : List Char)
    (loginNodeName : Option (List Char)) : Bool :=
  crayEnabled && decide (loginNodeName = some nodeName.chars) ||
    findName nodeName.chars none nodeEhl

/-- `job_already_being_killed`. -/
def jobAlreadyBeingKilled (jobsKilled : List Nat) (internalJobId : Nat) : Bool :=
  jobsKilled.any fun killed => killed = internalJobId

/-- `job_should_be_killed`; the two searches for the job are arguments. -/
def jobShouldBeKilled (crayEnabled : Bool) (jobsKilled : List Nat)
    (svrFindJobById svrFindJob : Option ReportedJob) (internalJobId : Nat)
    (pnode : ReportingNode) : Bool :=
  if isJobOnNode pnode internalJobId = false then
    match svrFindJobById.or svrFindJob with
    | some pjob =>
      let shouldBeOnNode :=
        match pjob.execHost with
        | none => false
        | some nodeEhl =>
          nodeInExechostlist crayEnabled pnode.name nodeEhl pjob.loginNodeId
      if shouldBeOnNode then false else !jobAlreadyBeingKilled jobsKilled internalJobId
    | none => true
  else false

/-! ## Lists of hosts -/

/-- The host of an entry, without the slots. -/
def entryHost (entry : List Char) : List Char :=
  entry.takeWhile (· ≠ '/')

/-- The exec_host string has an entry for the node. -/
def ListsNode (nodeName : NodeName) (nodeEhl : List Char) : Prop :=
  ∃ entry ∈ nodeEhl.splitOn '+', entryHost entry = nodeName.chars

/-- One of the entries is for the node, and has slots or is not the last one. -/
def HasEndedEntry (nodeName : NodeName) : List (List Char) → Prop
  | [] => False
  | entry :: entries =>
    entryHost entry = nodeName.chars ∧ ('/' ∈ entry ∨ entries ≠ []) ∨
      HasEndedEntry nodeName entries

/-- The exec_host string has an entry for the node that is followed by slots or by
another entry. -/
def ListsNodeInside (nodeName : NodeName) (nodeEhl : List Char) : Prop :=
  HasEndedEntry nodeName (nodeEhl.splitOn '+')

/-- The node or one of its boards holds a usage record of the job. -/
def HoldsUsage (pnode : ReportingNode) (internalJobId : Nat) : Prop :=
  checkNodeForJob pnode.ndJobUsages internalJobId = true ∨
    ∃ board ∈ pnode.nodeBoards, checkNodeForJob board internalJobId = true

/-! ## The search -/

section

variable {nodeName : NodeName} {entry rest : List Char} {prev : Option Char}

theorem findName_plus {more : List Char} :
    findName nodeName.chars prev ('+' :: more) = findName nodeName.chars (some '+') more := by
  have no : nodeName.chars.isPrefixOf ('+' :: more) = false := by
    rcases shape : nodeName.chars with _ | ⟨c, cs⟩
    · exact absurd shape nodeName.nonempty
    · have other : c ≠ '+' := by
        rintro rfl
        exact nodeName.noPlus (shape ▸ mem_cons_self)
      simp [isPrefixOf, other]
  rw [findName, no]
  rfl

/-- Inside an entry nothing is found. -/
theorem findName_inside {prev : Char} (inside : prev ≠ '+') (noPlus : '+' ∉ entry) :
    ∃ last, findName nodeName.chars (some prev) (entry ++ rest) =
      findName nodeName.chars last rest := by
  induction entry generalizing prev with
  | nil => exact ⟨_, rfl⟩
  | cons c entry ih =>
    rw [mem_cons, not_or] at noPlus
    have no : (some prev = none || some prev = some '+') = false := by
      simp [inside]
    rw [cons_append, findName]
    simp only [no, Bool.and_false, Bool.false_and, Bool.false_eq_true, if_false]
    exact ih (Ne.symm noPlus.1) noPlus.2

/-- Behind an entry the loop goes on with the next ones. -/
theorem findName_behind (list : rest = [] ∨ ∃ more, rest = '+' :: more) :
    findName nodeName.chars prev rest = true ↔
      ∃ more, rest = '+' :: more ∧ findName nodeName.chars (some '+') more = true := by
  rcases list with rfl | ⟨more, rfl⟩
  · simp [findName]
  · simp [findName_plus]

/-- A name that is found at the beginning of an entry is its host. -/
theorem exists_append_of_prefix (list : rest = [] ∨ ∃ more, rest = '+' :: more)
    (found : nodeName.chars <+: entry ++ rest) : ∃ slots, entry = nodeName.chars ++ slots := by
  obtain ⟨behind, whole⟩ := found
  rcases append_eq_append_iff.mp whole with ⟨slots, split, -⟩ | ⟨more, split, joined⟩
  · exact ⟨slots, split⟩
  · rcases more with _ | ⟨c, more⟩
    · exact ⟨[], by rw [split, append_nil, append_nil]⟩
    · -- the name would go on behind the entry, with a plus sign
      rcases list with rfl | ⟨left, rfl⟩
      · contradiction
      · obtain rfl : '+' = c := (cons.inj joined).1
        exact absurd (split ▸ by simp) nodeName.noPlus

theorem entryHost_append {slots : List Char} :
    entryHost (nodeName.chars ++ slots) = nodeName.chars ++ slots.takeWhile (· ≠ '/') := by
  unfold entryHost
  rw [takeWhile_append_of_pos]
  intro c mem
  simpa using fun same : c = '/' => nodeName.noSlash (same ▸ mem)

/-- At the beginning of an entry, the name is found exactly if it is the host of
the entry and something follows it. -/
theorem found_iff (noPlus : '+' ∉ entry) (list : rest = [] ∨ ∃ more, rest = '+' :: more) :
    (nodeName.chars.isPrefixOf (entry ++ rest) &&
        endsName ((entry ++ rest).drop nodeName.chars.length)) = true ↔
      entryHost entry = nodeName.chars ∧ ('/' ∈ entry ∨ rest ≠ []) := by
  rw [Bool.and_eq_true, isPrefixOf_iff_prefix]
  constructor
  · rintro ⟨found, ended⟩
    obtain ⟨slots, rfl⟩ := exists_append_of_prefix list found
    rw [append_assoc, drop_left] at ended
    rw [entryHost_append]
    rcases slots with _ | ⟨c, slots⟩
    · refine ⟨by simp, Or.inr ?_⟩
      rintro rfl
      exact absurd ended (by decide)
    · have slash : c = '/' := by
        have other : c ≠ '+' := by
          rintro rfl
          exact noPlus (by simp)
        simpa [endsName, other] using ended
      subst slash
      refine ⟨by simp, Or.inl (by simp)⟩
  · rintro ⟨host, follows⟩
    have split : nodeName.chars ++ entry.dropWhile (· ≠ '/') = entry := by
      rw [← host]
      exact takeWhile_append_dropWhile
    have behind : (entry ++ rest).drop nodeName.chars.length =
        entry.dropWhile (· ≠ '/') ++ rest := by
      rw [← split, append_assoc, drop_left, split]
    refine ⟨⟨entry.dropWhile (· ≠ '/') ++ rest, by rw [← append_assoc, split]⟩, ?_⟩
    rw [behind]
    rcases slots : entry.dropWhile (· ≠ '/') with _ | ⟨c, more⟩
    · rw [slots, append_nil] at split
      have next : rest ≠ [] := follows.resolve_left (split ▸ nodeName.noSlash)
      obtain ⟨more, rfl⟩ := list.resolve_left next
      rfl
    · have slash : c = '/' := by
        have head := head?_dropWhile_not (· ≠ '/') entry
        rw [slots] at head
        simpa using head
      rw [slash]
      rfl

/-- The loop looks at the beginning of an entry, and then at the entries behind it. -/
theorem findName_entry (start : prev = none ∨ prev = some '+') (noPlus : '+' ∉ entry)
    (list : rest = [] ∨ ∃ more, rest = '+' :: more) :
    findName nodeName.chars prev (entry ++ rest) = true ↔
      entryHost entry = nodeName.chars ∧ ('/' ∈ entry ∨ rest ≠ []) ∨
        ∃ more, rest = '+' :: more ∧ findName nodeName.chars (some '+') more = true := by
  rw [← found_iff noPlus list]
  cases entry with
  | nil =>
    have notHost : ¬ (entryHost [] = nodeName.chars ∧ ('/' ∈ ([] : List Char) ∨ rest ≠ [])) :=
      fun both => nodeName.nonempty both.1.symm
    rw [or_iff_right (mt (found_iff noPlus list).mp notHost), nil_append]
    exact findName_behind list
  | cons c entry =>
    have begins : (prev = none || prev = some '+') = true := by
      rcases start with rfl | rfl <;> rfl
    rw [mem_cons, not_or] at noPlus
    obtain ⟨last, passed⟩ := @findName_inside nodeName entry rest c (Ne.symm noPlus.1) noPlus.2
    rw [cons_append, findName, begins, Bool.and_true, passed]
    split
    · rename_i found
      exact iff_of_true rfl (Or.inl found)
    · rename_i notFound
      rw [or_iff_right notFound]
      exact findName_behind list

/-- The loop finds the name exactly if it is the host of an entry that is followed
by something. -/
theorem findName_iff (start : prev = none ∨ prev = some '+') {entries : List (List Char)}
    (noPlus : ∀ entry ∈ entries, '+' ∉ entry) :
    findName nodeName.chars prev (['+'].intercalate entries) = true ↔
      HasEndedEntry nodeName entries := by
  induction entries generalizing prev with
  | nil => exact iff_of_false Bool.false_ne_true id
  | cons entry entries ih =>
    have first := noPlus entry mem_cons_self
    have others := (forall_mem_cons.mp noPlus).2
    cases entries with
    | nil =>
      have single : ['+'].intercalate [entry] = entry ++ [] := by
        simp [intercalate]
      rw [single, findName_entry start first (Or.inl rfl)]
      simp [HasEndedEntry]
    | cons next entries =>
      have joined : ['+'].intercalate (entry :: next :: entries) =
          entry ++ '+' :: ['+'].intercalate (next :: entries) := by
        simp [intercalate]
      rw [joined, findName_entry start first (Or.inr ⟨_, rfl⟩), HasEndedEntry,
        ← ih (Or.inr rfl) others]
      simp

theorem nodeInExechostlist_iff {crayEnabled : Bool} {nodeEhl : List Char}
    {loginNodeName : Option (List Char)} :
    nodeInExechostlist crayEnabled nodeName nodeEhl loginNodeName = true ↔
      (crayEnabled = true ∧ loginNodeName = some nodeName.chars) ∨
        ListsNodeInside nodeName nodeEhl := by
  have noPlus : ∀ entry ∈ nodeEhl.splitOn '+', '+' ∉ entry :=
    fun _ mem => Text.not_mem_of_mem_splitOn mem
  have whole : ['+'].intercalate (nodeEhl.splitOn '+') = nodeEhl := intercalate_splitOn '+'
  unfold nodeInExechostlist ListsNodeInside
  rw [← findName_iff (Or.inl rfl) noPlus, whole, Bool.or_eq_true, Bool.and_eq_true,
    decide_eq_true_eq]

end

/-! ## Which jobs are spared -/

theorem isJobOnNode_eq (pnode : ReportingNode) (internalJobId : Nat) :
    isJobOnNode pnode internalJobId = checkNodeForJob pnode.ndJobUsages internalJobId := by
  unfold isJobOnNode
  split
  · rename_i boards
    obtain ⟨board, more, shape⟩ := exists_cons_of_length_pos boards
    rw [shape]
    cases checkNodeForJob pnode.ndJobUsages internalJobId <;> simp
  · rfl

/-- The exec_host of the job lists the node. -/
def ReportedJob.Lists (pjob : ReportedJob) (nodeName : NodeName) : Prop :=
  ∃ nodeEhl, pjob.execHost = some nodeEhl ∧ ListsNode nodeName nodeEhl

/-- The exec_host of the job is found to list the node: it does so in front of its
end, or the node is the login node of the job. -/
def ReportedJob.FoundToList (crayEnabled : Bool) (pjob : ReportedJob) (nodeName : NodeName) :
    Prop :=
  ∃ nodeEhl, pjob.execHost = some nodeEhl ∧
    ((crayEnabled = true ∧ pjob.loginNodeId = some nodeName.chars) ∨
      ListsNodeInside nodeName nodeEhl)

/-- A job that its exec_host lists on the node, or of which the node or one of its
boards holds a usage record, is spared if and only if this shows in the records
of the node itself or in an entry of exec_host that is followed by something. -/
theorem job_on_node_spared_iff (crayEnabled : Bool) (jobsKilled : List Nat)
    (svrFindJobById svrFindJob : Option ReportedJob) (pjob : ReportedJob) (internalJobId : Nat)
    (pnode : ReportingNode) (known : svrFindJobById.or svrFindJob = some pjob) :
    (pjob.Lists pnode.name ∨ HoldsUsage pnode internalJobId →
      jobShouldBeKilled crayEnabled jobsKilled svrFindJobById svrFindJob internalJobId pnode =
        false) ↔
    (pjob.Lists pnode.name ∨ HoldsUsage pnode internalJobId →
      checkNodeForJob pnode.ndJobUsages internalJobId = true ∨
        pjob.FoundToList crayEnabled pnode.name ∨ internalJobId ∈ jobsKilled) := by
  -- whatever is assumed of the job, these three are what spares it
  refine imp_congr_right fun _ => ?_
  have killed : jobAlreadyBeingKilled jobsKilled internalJobId = true ↔
      internalJobId ∈ jobsKilled := by
    simp [jobAlreadyBeingKilled]
  obtain ⟨execHost, loginNodeId⟩ := pjob
  unfold jobShouldBeKilled ReportedJob.FoundToList
  rw [known, isJobOnNode_eq]
  cases checkNodeForJob pnode.ndJobUsages internalJobId with
  | true => simp
  | false =>
    cases execHost with
    | none => simp [killed]
    | some nodeEhl =>
      simp only [Option.some.injEq, exists_eq_left', ← nodeInExechostlist_iff]
      by_cases listed : nodeInExechostlist crayEnabled pnode.name nodeEhl loginNodeId = true
      · simp [listed]
      · simp [listed, killed]

/-- A job that runs on the first of two nodes. -/
theorem job_on_node_spared_iff_first :
    jobShouldBeKilled false [] none (some ⟨some ['n', '/', '0', '+', 'm', '/', '0'], none⟩) 5
      ⟨⟨['n'], by decide, by decide, by decide⟩, [], []⟩ = false := by
  have found : HasEndedEntry ⟨['n'], by decide, by decide, by decide⟩
      [['n', '/', '0'], ['m', '/', '0']] :=
    .inl ⟨by decide, .inl (by decide)⟩
  refine (job_on_node_spared_iff false [] none _ _ 5 _ rfl).mpr (fun _ => ?_) (.inl ?_)
  · exact .inr (.inl ⟨_, rfl, .inr found⟩)
  · exact ⟨_, rfl, ['n', '/', '0'], by decide, by decide⟩

/-- A job whose exec_host ends with the name of the node is killed there. -/
theorem job_on_last_node_killed :
    ¬ ∀ (crayEnabled : Bool) (jobsKilled : List Nat)
      (svrFindJobById svrFindJob : Option ReportedJob) (pjob : ReportedJob) (internalJobId : Nat)
      (pnode : ReportingNode), svrFindJobById.or svrFindJob = some pjob →
      pjob.Lists pnode.name ∨ HoldsUsage pnode internalJobId →
      jobShouldBeKilled crayEnabled jobsKilled svrFindJobById svrFindJob internalJobId pnode =
        false := by
  intro always
  have lists : ReportedJob.Lists ⟨some ['m', '+', 'n'], none⟩
      ⟨['n'], by decide, by decide, by decide⟩ :=
    ⟨['m', '+', 'n'], rfl, ['n'], by decide, rfl⟩
  have spared := always false [] none (some ⟨some ['m', '+', 'n'], none⟩) _ 5
    ⟨⟨['n'], by decide, by decide, by decide⟩, [], []⟩ rfl (Or.inl lists)
  exact absurd spared (by decide)

end Torque.Node
