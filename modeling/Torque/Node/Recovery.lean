import Torque.Node.ExecHost
import Torque.Numa.RangeString
import Mathlib.Data.List.Nodup

/-!
# What is recovered from exec_host

An entry of `exec_host` is read back as the first run of consecutive slots it was
printed from, and an entry without slots as slot 0.  So a job is recovered with
exactly its slots if the slots it has on each node are one run, short enough to
be printed.
-/

namespace Torque.Node

open Torque.Text Function List ExecutionSlotTracker

variable {index : Nat} {rest : List Nat} {n room : Nat} {info : JobReservationInfo}
  {pnode : PbsNode} {nodes : AllNodes} {hostInfo : List JobReservationInfo}

/-! ## The first run -/

/-- The last index of the run of consecutive indices that starts with the first
one. -/
def runEnd : Nat → List Nat → Nat
  | index, [] => index
  | index, next :: rest => if index + 1 = next then runEnd next rest else index

theorem le_runEnd (index : Nat) (rest : List Nat) : index ≤ runEnd index rest := by
  induction rest generalizing index with
  | nil => exact Nat.le_refl _
  | cons next rest ih =>
    unfold runEnd
    split
    · have onward := ih next
      omega
    · exact Nat.le_refl _

/-- All indices up to the end of the run are in the list. -/
theorem mem_of_le_runEnd {i : Nat} (least : index ≤ i) (most : i ≤ runEnd index rest) :
    i ∈ index :: rest := by
  induction rest generalizing index with
  | nil =>
    exact mem_singleton.mpr (Nat.le_antisymm most least)
  | cons next rest ih =>
    unfold runEnd at most
    split at most
    · by_cases here : i = index
      · exact here ▸ mem_cons_self
      · exact mem_cons_of_mem _ (ih (by omega) most)
    · exact (Nat.le_antisymm most least) ▸ mem_cons_self

/-- The index behind the run is not in the list. -/
theorem runEnd_succ_not_mem (sorted : (index :: rest).Pairwise (· < ·)) :
    runEnd index rest + 1 ∉ index :: rest := by
  induction rest generalizing index with
  | nil =>
    rw [runEnd, mem_singleton]
    exact Nat.succ_ne_self index
  | cons next rest ih =>
    obtain ⟨least, sorted⟩ := pairwise_cons.mp sorted
    have onward := le_runEnd next rest
    have behind : index < next := least next mem_cons_self
    rw [mem_cons, not_or]
    unfold runEnd
    split
    · exact ⟨by omega, ih sorted⟩
    · refine ⟨Nat.succ_ne_self index, ?_⟩
      intro mem
      rcases mem_cons.mp mem with here | later
      · contradiction
      · have more := (pairwise_cons.mp sorted).1 _ later
        omega

/-! ## What is printed -/

/-- Only the first number and the end of its run are in front of the first
comma. -/
theorem rangeEnd_foldl {text : List Char} (some : text ≠ []) (prev : Nat) (consecutive : Bool)
    (rest : List Nat) :
    ∃ tail : List Char, (∀ c, tail.head? = .some c → c = ',') ∧
      rangeEnd (rest.foldl rangeStep ⟨text, prev, consecutive⟩) =
        text ++ ((if consecutive = true ∨ runEnd prev rest ≠ prev then
          numbuf ('-' :: decimal (runEnd prev rest)) else []) ++ tail) := by
  induction rest generalizing text prev consecutive with
  | nil =>
    refine ⟨[], nofun, ?_⟩
    cases consecutive <;> simp [rangeEnd, runEnd]
  | cons next rest ih =>
    rw [foldl_cons]
    by_cases run : prev + 1 = next
    · have onward := le_runEnd next rest
      have grown : runEnd next rest ≠ prev := by omega
      have step : rangeStep ⟨text, prev, consecutive⟩ next = ⟨text, next, true⟩ := by
        cases consecutive <;> simp [rangeStep, run, some]
      obtain ⟨tail, comma, printed⟩ := ih some next true
      refine ⟨tail, comma, ?_⟩
      rw [step, printed]
      simp [runEnd, run, grown]
    · have apart : runEnd prev (next :: rest) = prev := by
        simp [runEnd, run]
      rw [apart]
      -- the rest is printed behind a comma
      have behind : ∀ closing : List Char, ∃ more : List Char,
          rangeEnd (rest.foldl rangeStep
            ⟨text ++ closing ++ numbuf (',' :: decimal next), next, false⟩) =
            text ++ (closing ++ (numbuf (',' :: decimal next) ++ more)) := by
        intro closing
        have nonempty : text ++ closing ++ numbuf (',' :: decimal next) ≠ [] := by
          simp [some]
        obtain ⟨tail, -, printed⟩ := ih nonempty next false
        rw [printed]
        simp only [append_assoc]
        exact ⟨_, rfl⟩
      have comma : ∀ (more : List Char) c,
          (numbuf (',' :: decimal next) ++ more).head? = .some c → c = ',' := by
        intro more c head
        simpa [numbuf] using head.symm
      cases consecutive with
      | false =>
        have step : rangeStep ⟨text, prev, false⟩ next =
            ⟨text ++ [] ++ numbuf (',' :: decimal next), next, false⟩ := by
          simp [rangeStep, run, some]
        obtain ⟨more, printed⟩ := behind []
        refine ⟨_, comma more, ?_⟩
        rw [step, printed]
        simp
      | true =>
        have step : rangeStep ⟨text, prev, true⟩ next =
            ⟨text ++ numbuf ('-' :: decimal prev) ++ numbuf (',' :: decimal next), next,
              false⟩ := by
          simp [rangeStep, run]
        obtain ⟨more, printed⟩ := behind (numbuf ('-' :: decimal prev))
        refine ⟨_, comma more, ?_⟩
        rw [step, printed]
        simp

/-- What is printed of the occupied slots: the first one, the end of its run, and
the rest behind a comma. -/
theorem populateRangeString_cons {est : ExecutionSlotTracker}
    (occupied : est.occupied = index :: rest) :
    ∃ tail : List Char, (∀ c, tail.head? = .some c → c = ',') ∧
      populateRangeStringFromSlotTracker est =
        numbuf (decimal index) ++ ((if runEnd index rest ≠ index then
          '-' :: (decimal (runEnd index rest)).take 8 else []) ++ tail) := by
  have some : numbuf (decimal index) ≠ [] := by
    have digits := decimal_ne_nil index
    simpa [numbuf] using digits
  obtain ⟨tail, comma, printed⟩ := rangeEnd_foldl some index false rest
  refine ⟨tail, comma, ?_⟩
  rw [populateRangeStringFromSlotTracker, occupied, foldl_cons]
  have first : rangeStep ⟨[], 0, false⟩ index = ⟨numbuf (decimal index), index, false⟩ := by
    simp [rangeStep]
  rw [first, printed]
  simp [numbuf]

/-! ## What is read back -/

/-- The number that was printed, as it is read back. -/
def readBack (room n : Nat) : Nat :=
  digitsValue ((decimal n).take room)

theorem readBack_le (room n : Nat) : readBack room n ≤ n := by
  have le := digitsValue_take_le (decimal n) room
  rw [digitsValue_decimal] at le
  exact le

/-- A number is read back as itself exactly if there was room for it. -/
theorem readBack_eq_iff (pos : 0 < room) : readBack room n = n ↔ n < 10 ^ room := by
  constructor
  · intro same
    by_contra large
    have cut : room < (decimal n).length := by
      by_contra fits
      exact large ((length_decimal_le_iff pos).mp (Nat.le_of_not_lt fits))
    have nonzero : 0 < n := by
      have power : 0 < 10 ^ room := Nat.pow_pos (by decide)
      omega
    have less := digitsValue_take_lt cut ((digitsValue_decimal n).symm ▸ nonzero)
    rw [digitsValue_decimal] at less
    exact Nat.ne_of_lt less same
  · intro small
    rw [readBack, take_of_length_le ((length_decimal_le_iff pos).mpr small), digitsValue_decimal]

theorem readBack_lt (room n : Nat) : readBack room n < 10 ^ room := by
  have small : digitsValue ((decimal n).take room) < 10 ^ ((decimal n).take room).length :=
    digitsValue_lt fun c mem => isDigit_decimal (mem_of_mem_take mem)
  have power : 10 ^ ((decimal n).take room).length ≤ 10 ^ room :=
    Nat.pow_le_pow_right (by decide) (length_take_le _ _)
  exact Nat.lt_of_lt_of_le small power

theorem strtol_printed {rest : List Char} (pos : 0 < room) (short : room ≤ 9)
    (stop : ∀ c, rest.head? = .some c → c.isDigit = false) :
    strtol ((decimal n).take room ++ rest) = ((readBack room n : Int), rest) ∧
      asInt (readBack room n) = readBack room n := by
  have small : readBack room n < 10 ^ 9 :=
    Nat.lt_of_lt_of_le (readBack_lt room n) (Nat.pow_le_pow_right (by decide) short)
  refine ⟨strtol_digits ?_ ?_ stop ?_, asInt_of_lt ?_⟩
  · have digits := decimal_ne_nil n
    rw [Ne, take_eq_nil_iff, not_or]
    exact ⟨Nat.pos_iff_ne_zero.mp pos, digits⟩
  · exact fun c mem => isDigit_decimal (mem_of_mem_take mem)
  · exact Nat.lt_trans small (by decide)
  · exact Nat.lt_trans small (by decide)

theorem lastSlot_eq {first : Int} {dash : List Char} (no : dash.head? ≠ some '-') :
    lastSlot first dash = first := by
  unfold lastSlot
  split
  · exact absurd rfl no
  · rfl

theorem slotRange_append {name rest : List Char} (noSlash : '/' ∉ name) :
    slotRange (name ++ '/' :: rest) =
      (asInt (strtol rest).1, lastSlot (asInt (strtol rest).1) (strtol rest).2) := by
  have cut : (name ++ '/' :: rest).dropWhile (· ≠ '/') = '/' :: rest := by
    rw [dropWhile_append_of_pos]
    · exact dropWhile_cons_of_neg (by simp)
    · intro c mem
      simpa using fun same : c = '/' => noSlash (same ▸ mem)
  unfold slotRange
  rw [cut]

/-- Without slots, an entry is read as slot 0. -/
theorem slotRange_entry_nil (none : info.est.occupied = []) : slotRange info.entry = (0, 0) := by
  rw [JobReservationInfo.entry, slotRange_append info.node.noSlash,
    populateRangeStringFromSlotTracker, none]
  rfl

theorem slotRange_entry_cons (occupied : info.est.occupied = index :: rest) :
    slotRange info.entry = ((readBack 9 index : Int),
      if runEnd index rest = index then (readBack 9 index : Int)
      else (readBack 8 (runEnd index rest) : Int)) := by
  obtain ⟨tail, comma, printed⟩ := populateRangeString_cons occupied
  have stop : ∀ c, tail.head? = .some c → c.isDigit = false := by
    intro c head
    rw [comma c head]
    rfl
  rw [JobReservationInfo.entry, slotRange_append info.node.noSlash, printed, numbuf]
  by_cases single : runEnd index rest = index
  · rw [if_neg (not_not.mpr single), nil_append, if_pos single]
    obtain ⟨first, small⟩ := strtol_printed (n := index) (by decide : 0 < 9) (Nat.le_refl 9) stop
    have noDash : tail.head? ≠ some '-' := fun head => absurd (comma '-' head) (by decide)
    rw [first, lastSlot_eq noDash, small]
  · rw [if_pos single, if_neg single, cons_append]
    have dash : ∀ c, ('-' :: ((decimal (runEnd index rest)).take 8 ++ tail)).head? = .some c →
        c.isDigit = false := by
      intro c head
      cases head
      rfl
    obtain ⟨first, small⟩ := strtol_printed (n := index) (by decide : 0 < 9) (Nat.le_refl 9) dash
    obtain ⟨last, small'⟩ :=
      strtol_printed (n := runEnd index rest) (by decide : 0 < 8) (by decide) stop
    rw [first, small, lastSlot, last, small']

/-! ## Single runs -/

/-- The occupied slots are one run of consecutive ones, whose ends fit into
`numbuf`; the end of a longer run is printed behind a dash. -/
def ExecutionSlotTracker.SingleRun (est : ExecutionSlotTracker) : Prop :=
  ∃ first last : Nat, first ≤ last ∧
    (∀ index, est.isOccupied index = true ↔ first ≤ index ∧ index ≤ last) ∧
    if first = last then last < 10 ^ 9 else last < 10 ^ 8

/-- An entry is read back as the slots it was printed from exactly if they are a
single run. -/
theorem slotRange_exact_iff (info : JobReservationInfo) :
    (∀ index : Nat, (slotRange info.entry).1 ≤ index ∧ (index : Int) ≤ (slotRange info.entry).2 ↔
      info.est.isOccupied index = true) ↔ info.est.SingleRun := by
  have sorted := info.est.pairwise_occupied
  have member : ∀ index, info.est.isOccupied index = true ↔ index ∈ info.est.occupied :=
    fun index => mem_occupied.symm
  rcases occupied : info.est.occupied with _ | ⟨index, rest⟩
  · -- nothing is printed, and slot 0 is read
    simp only [occupied, not_mem_nil, iff_false] at member
    rw [slotRange_entry_nil occupied]
    apply iff_of_false
    · intro exact
      exact member 0 ((exact 0).mp ⟨Int.le_refl 0, Int.le_refl 0⟩)
    · rintro ⟨first, last, le, all, -⟩
      exact member first ((all first).mpr ⟨Nat.le_refl _, le⟩)
  · rw [occupied] at sorted
    simp only [occupied] at member
    have least : ∀ i, info.est.isOccupied i = true → index ≤ i := by
      intro i mem
      rcases mem_cons.mp ((member i).mp mem) with here | later
      · exact Nat.le_of_eq here.symm
      · exact Nat.le_of_lt ((pairwise_cons.mp sorted).1 i later)
    have start : info.est.isOccupied index = true := (member index).mpr mem_cons_self
    have stop := (member _).mpr (mem_of_le_runEnd (le_runEnd index rest) (Nat.le_refl _))
    have behind : ¬ info.est.isOccupied (runEnd index rest + 1) = true :=
      fun mem => runEnd_succ_not_mem sorted ((member _).mp mem)
    have grown := le_runEnd index rest
    rw [slotRange_entry_cons occupied]
    have le8 := readBack_le 8 (runEnd index rest)
    have fits9 := readBack_eq_iff (n := index) (by decide : 0 < 9)
    have fits8 := readBack_eq_iff (n := runEnd index rest) (by decide : 0 < 8)
    constructor
    · intro exact
      have ends := (exact _).mpr stop
      by_cases single : runEnd index rest = index
      · have same : readBack 9 index = index := by omega
        refine ⟨index, index, Nat.le_refl _, ?_, ?_⟩
        · intro i
          rw [← exact i, same]
          omega
        · rw [if_pos rfl]
          exact fits9.mp same
      · have last : readBack 8 (runEnd index rest) = runEnd index rest := by omega
        have first : readBack 9 index = index := by
          omega
        refine ⟨index, runEnd index rest, grown, ?_, ?_⟩
        · intro i
          rw [← exact i, first, last]
          omega
        · rw [if_neg (Ne.symm single)]
          exact fits8.mp last
    · rintro ⟨first, last, le, all, small⟩
      have first_eq : first = index :=
        Nat.le_antisymm ((all index).mp start).1 (least first ((all first).mpr ⟨Nat.le_refl _, le⟩))
      have last_eq : last = runEnd index rest := by
        have within := ((all _).mp stop).2
        have outside : ¬ (first ≤ runEnd index rest + 1 ∧ runEnd index rest + 1 ≤ last) :=
          fun both => behind ((all _).mpr both)
        omega
      subst first_eq last_eq
      intro i
      rw [all i]
      by_cases single : runEnd first rest = first
      · rw [if_pos single.symm, single] at small
        omega
      · rw [if_neg (Ne.symm single)] at small
        omega

/-! ## Nodes -/

/-- No slot of the node is occupied, and no job uses it. -/
def PbsNode.Idle (pnode : PbsNode) : Prop :=
  pnode.ndJobUsages = [] ∧ ∀ index, pnode.ndSlots.isOccupied index = false

/-- The slots of the node that the usage records of the job have. -/
def PbsNode.UsedBy (internalJobId : Nat) (pnode : PbsNode) (index : Nat) : Prop :=
  ∃ jui ∈ pnode.ndJobUsages, jui.internalJobId = internalJobId ∧ jui.est.isOccupied index = true

theorem PbsNode.Idle.isOccupied_setSlots (idle : pnode.Idle) (job : Nat) (first last : Int)
    (index : Nat) :
    (pnode.setSlots job first last).ndSlots.isOccupied index = true ↔
      first ≤ index ∧ (index : Int) ≤ last ∧ index < pnode.ndSlots.getTotalExecutionSlots := by
  unfold setSlots
  rw [isOccupied_markRange, idle.2 index]
  simp

theorem PbsNode.Idle.usedBy_setSlots (idle : pnode.Idle) (job : Nat) (first last : Int)
    (index : Nat) :
    (pnode.setSlots job first last).UsedBy job index ↔ first ≤ index ∧ (index : Int) ≤ last := by
  have record : (pnode.setSlots job first last).ndJobUsages =
      [JobUsageInfo.add first last ⟨job, .empty⟩] := by
    simp [setSlots, idle.1]
  have vacant : empty.isOccupied index = false := rfl
  unfold UsedBy
  rw [record]
  simp only [mem_singleton, exists_eq_left, JobUsageInfo.add, true_and]
  rw [isOccupied_markRange, isOccupied_padTo, vacant, getTotalExecutionSlots_padTo]
  simp only [Bool.false_eq_true, or_false]
  omega

/-! ## Entries -/

theorem NodeName.ofChars?_chars (name : NodeName) : NodeName.ofChars? name.chars = some name := by
  unfold ofChars?
  rw [dif_pos ⟨name.nonempty, name.noPlus, name.noSlash⟩]

/-- The node of an entry, after the entry was read. -/
def JobReservationInfo.recovered (job : Nat) (info : JobReservationInfo) (pnode : PbsNode) :
    PbsNode :=
  pnode.setSlots job (slotRange info.entry).1 (slotRange info.entry).2

theorem setOneOld_entry (job : Nat) (info : JobReservationInfo)
    (found : nodes info.node = some pnode) :
    setOneOld job info.entry nodes =
      (true, update nodes info.node (some (info.recovered job pnode))) := by
  have host : info.entry.takeWhile (· ≠ '/') = info.node.chars := by
    rw [JobReservationInfo.entry, takeWhile_append_of_pos]
    · rw [takeWhile_cons_of_neg (by simp), append_nil]
    · intro c mem
      simpa using fun same : c = '/' => info.node.noSlash (same ▸ mem)
  unfold setOneOld
  simp only [host, NodeName.ofChars?_chars, found]
  rfl

/-- The nodes after entries for different nodes were read. -/
theorem setEntries_entries (job : Nat) {infos : List JobReservationInfo}
    (distinct : (infos.map JobReservationInfo.node).Nodup)
    (known : ∀ info ∈ infos, (nodes info.node).isSome) :
    (∀ info ∈ infos, (setEntries job (infos.map JobReservationInfo.entry) nodes).2 info.node =
      (nodes info.node).map (info.recovered job)) ∧
    (∀ name ∉ infos.map JobReservationInfo.node,
      (setEntries job (infos.map JobReservationInfo.entry) nodes).2 name = nodes name) := by
  induction infos generalizing nodes with
  | nil => exact ⟨forall_mem_nil _, fun _ _ => rfl⟩
  | cons info infos ih =>
    rw [map_cons, nodup_cons] at distinct
    obtain ⟨pnode, found⟩ := Option.isSome_iff_exists.mp (known info mem_cons_self)
    have apart : ∀ other ∈ infos, other.node ≠ info.node := by
      intro other mem same
      exact distinct.1 (same ▸ mem_map_of_mem mem)
    rw [map_cons, map_cons, setEntries, setOneOld_entry job info found]
    have known' : ∀ other ∈ infos,
        (update nodes info.node (some (info.recovered job pnode)) other.node).isSome := by
      intro other mem
      rw [update_of_ne (apart other mem)]
      exact known other (mem_cons_of_mem _ mem)
    obtain ⟨read, unread⟩ := ih distinct.2 known'
    constructor
    · intro other mem
      rcases mem_cons.mp mem with rfl | later
      · rw [unread _ distinct.1, update_self, found]
        rfl
      · rw [read other later, update_of_ne (apart other later)]
    · intro name outside
      rw [mem_cons, not_or] at outside
      rw [unread name outside.2, update_of_ne outside.1]

/-! ## The whole string -/

theorem plus_not_mem_rangeEnd (rest : List Nat) {state : RangeState}
    (without : '+' ∉ state.rangeStr) : '+' ∉ rangeEnd (rest.foldl rangeStep state) := by
  have printed : ∀ (c : Char) (n : Nat), c ≠ '+' → '+' ∉ numbuf (c :: decimal n) := by
    intro c n other mem
    rcases mem_cons.mp (mem_of_mem_take mem) with same | digit
    · exact other same.symm
    · exact absurd (isDigit_decimal digit) (by decide)
  have number : ∀ n : Nat, '+' ∉ numbuf (decimal n) := by
    intro n mem
    exact absurd (isDigit_decimal (mem_of_mem_take mem)) (by decide)
  have comma : ∀ n, '+' ∉ numbuf (',' :: decimal n) := fun n => printed ',' n (by decide)
  have dash : ∀ n, '+' ∉ numbuf ('-' :: decimal n) := fun n => printed '-' n (by decide)
  induction rest generalizing state with
  | nil =>
    rw [foldl_nil, rangeEnd]
    split
    · simp [without, dash]
    · exact without
  | cons next rest ih =>
    apply ih
    unfold rangeStep
    split
    · split
      · simp [without, number]
      · split
        · exact without
        · simp [without, comma]
    · split
      · simp [without, comma, dash]
      · exact without

theorem plus_not_mem_entry (info : JobReservationInfo) : '+' ∉ info.entry := by
  have range : '+' ∉ populateRangeStringFromSlotTracker info.est :=
    plus_not_mem_rangeEnd info.est.occupied not_mem_nil
  rw [JobReservationInfo.entry, mem_append, mem_cons]
  rintro (name | slash | text)
  · exact info.node.noPlus name
  · exact absurd slash (by decide)
  · exact range text

/-- The entries of the string are those that were printed. -/
theorem splitOn_translate (some : hostInfo ≠ []) :
    (translateJobReservationInfoToString hostInfo).splitOn '+' =
      hostInfo.map JobReservationInfo.entry := by
  apply splitOn_intercalate
  · intro entry mem
    obtain ⟨info, -, rfl⟩ := mem_map.mp mem
    exact plus_not_mem_entry info
  · simpa using some

/-- The nodes after the whole string was read. -/
theorem setOldNodes_translate (job : Nat) (distinct : (hostInfo.map JobReservationInfo.node).Nodup)
    (known : ∀ info ∈ hostInfo, (nodes info.node).isSome) :
    (∀ info ∈ hostInfo,
      (setOldNodes job (translateJobReservationInfoToString hostInfo) nodes).2 info.node =
        (nodes info.node).map (info.recovered job)) ∧
    (∀ name ∉ hostInfo.map JobReservationInfo.node,
      (setOldNodes job (translateJobReservationInfoToString hostInfo) nodes).2 name =
        nodes name) := by
  rcases hostInfo with _ | ⟨info, more⟩
  · exact ⟨forall_mem_nil _, fun _ _ => rfl⟩
  · unfold setOldNodes
    rw [splitOn_translate (cons_ne_nil info more), ← map_reverse]
    have distinct' : ((info :: more).reverse.map JobReservationInfo.node).Nodup := by
      rw [map_reverse, nodup_reverse]
      exact distinct
    have known' : ∀ other ∈ (info :: more).reverse, (nodes other.node).isSome :=
      fun other mem => known other (mem_reverse.mp mem)
    obtain ⟨read, unread⟩ := setEntries_entries job distinct' known'
    refine ⟨fun other mem => read other (mem_reverse.mpr mem), fun name outside => ?_⟩
    apply unread
    rw [map_reverse, mem_reverse]
    exact outside

/-- The slot of the node is reserved. -/
def Reserved (hostInfo : List JobReservationInfo) (name : NodeName) (index : Nat) : Prop :=
  ∃ info ∈ hostInfo, info.node = name ∧ info.est.isOccupied index = true

/-- In every node, the slots that are used, and those of the usage records of the
job, are exactly the reserved ones. -/
def Recovered (job : Nat) (hostInfo : List JobReservationInfo) (nodes : AllNodes) : Prop :=
  ∀ name pnode, nodes name = some pnode → ∀ index,
    (pnode.ndSlots.isOccupied index = true ↔ Reserved hostInfo name index) ∧
      (pnode.UsedBy job index ↔ Reserved hostInfo name index)

theorem reserved_iff (distinct : (hostInfo.map JobReservationInfo.node).Nodup)
    (mem : info ∈ hostInfo) (index : Nat) :
    Reserved hostInfo info.node index ↔ info.est.isOccupied index = true := by
  constructor
  · rintro ⟨other, mem', same, occupied⟩
    rw [← inj_on_of_nodup_map distinct mem' mem same]
    exact occupied
  · intro occupied
    exact ⟨info, mem, rfl, occupied⟩

/-- A job is recovered from its exec_host string, on idle nodes, with exactly the
slots it had if and only if the slots it had on each node were one run. -/
theorem recovered_iff_singleRun (job : Nat) (hostInfo : List JobReservationInfo)
    (nodes : AllNodes) (distinct : (hostInfo.map JobReservationInfo.node).Nodup)
    (idle : ∀ name pnode, nodes name = some pnode → pnode.Idle)
    (placed : ∀ info ∈ hostInfo, ∃ pnode, nodes info.node = some pnode ∧
      info.est.getTotalExecutionSlots ≤ pnode.ndSlots.getTotalExecutionSlots) :
    Recovered job hostInfo
        (setOldNodes job (translateJobReservationInfoToString hostInfo) nodes).2 ↔
      ∀ info ∈ hostInfo, info.est.SingleRun := by
  have known : ∀ info ∈ hostInfo, (nodes info.node).isSome := by
    intro info mem
    obtain ⟨pnode, found, -⟩ := placed info mem
    rw [found]
    rfl
  obtain ⟨read, unread⟩ := setOldNodes_translate job distinct known
  constructor
  · intro recovered info mem
    obtain ⟨pnode, found, -⟩ := placed info mem
    have after := read info mem
    rw [found, Option.map_some] at after
    rw [← slotRange_exact_iff]
    intro index
    have used := (recovered _ _ after index).2
    rw [reserved_iff distinct mem index] at used
    rw [← used]
    exact ((idle _ _ found).usedBy_setSlots job _ _ index).symm
  · intro single name pnode' after index
    by_cases listed : name ∈ hostInfo.map JobReservationInfo.node
    · obtain ⟨info, mem, rfl⟩ := mem_map.mp listed
      obtain ⟨pnode, found, large⟩ := placed info mem
      rw [read info mem, found, Option.map_some] at after
      obtain rfl := Option.some.inj after
      have same := (slotRange_exact_iff info).mpr (single info mem) index
      rw [reserved_iff distinct mem index, ← same]
      refine ⟨((idle _ _ found).isOccupied_setSlots job _ _ index).trans ?_,
        (idle _ _ found).usedBy_setSlots job _ _ index⟩
      constructor
      · exact fun within => ⟨within.1, within.2.1⟩
      · intro within
        have inside := ExecutionSlotTracker.lt_of_isOccupied (same.mp within)
        exact ⟨within.1, within.2, Nat.lt_of_lt_of_le inside large⟩
    · rw [unread name listed] at after
      obtain ⟨none, free⟩ := idle name pnode' after
      have unreserved : ¬ Reserved hostInfo name index := by
        rintro ⟨info, mem, rfl, -⟩
        exact listed (mem_map_of_mem mem)
      refine ⟨iff_of_false (by rw [free]; exact Bool.false_ne_true) unreserved,
        iff_of_false ?_ unreserved⟩
      rintro ⟨jui, mem, -⟩
      rw [none] at mem
      exact not_mem_nil mem

/-- A node by the name of `n`. -/
def nodeN : NodeName :=
  ⟨['n'], by decide, by decide, by decide⟩

/-- The only node is `n`, and it is idle. -/
def onlyNodeN (slots : Nat) : AllNodes :=
  fun name => if name = nodeN then some ⟨.ofSize slots, [], false⟩ else none

theorem idle_onlyNodeN (slots : Nat) (name : NodeName) (pnode : PbsNode)
    (found : onlyNodeN slots name = some pnode) : pnode.Idle := by
  unfold onlyNodeN at found
  split at found
  · cases found
    exact ⟨rfl, isOccupied_ofSize slots⟩
  · contradiction

/-- Three of six slots, one behind the other. -/
theorem recovered_iff_singleRun_three :
    Recovered 7 [⟨nodeN, ⟨[false, true, true, true, false, false], 3, rfl⟩⟩]
      (setOldNodes 7 (translateJobReservationInfoToString
        [⟨nodeN, ⟨[false, true, true, true, false, false], 3, rfl⟩⟩]) (onlyNodeN 6)).2 := by
  refine (recovered_iff_singleRun 7 _ (onlyNodeN 6) ?_ (idle_onlyNodeN 6) ?_).mpr ?_
  · exact nodup_singleton _
  · intro info mem
    obtain rfl := mem_singleton.mp mem
    exact ⟨_, if_pos rfl, Nat.le_refl 6⟩
  · intro info mem
    obtain rfl := mem_singleton.mp mem
    refine ⟨1, 3, by decide, fun index => ?_, by decide⟩
    match index with
    | 0 | 1 | 2 | 3 | 4 | 5 => decide
    | index + 6 => exact iff_of_false Bool.false_ne_true (by omega)

/-- The first and the third of three slots; only the first one is recovered. -/
theorem second_run_lost :
    ¬ ∀ (job : Nat) (hostInfo : List JobReservationInfo) (nodes : AllNodes),
      (hostInfo.map JobReservationInfo.node).Nodup →
      (∀ name pnode, nodes name = some pnode → pnode.Idle) →
      (∀ info ∈ hostInfo, ∃ pnode, nodes info.node = some pnode ∧
        info.est.getTotalExecutionSlots ≤ pnode.ndSlots.getTotalExecutionSlots) →
      Recovered job hostInfo
        (setOldNodes job (translateJobReservationInfoToString hostInfo) nodes).2 := by
  intro always
  have recovered := always 7 [⟨nodeN, ⟨[true, false, true], 1, rfl⟩⟩] (onlyNodeN 3)
    (nodup_singleton _) (idle_onlyNodeN 3) fun info mem => by
      obtain rfl := mem_singleton.mp mem
      exact ⟨_, if_pos rfl, Nat.le_refl 3⟩
  have lost : ((setOldNodes 7 (translateJobReservationInfoToString
      [⟨nodeN, ⟨[true, false, true], 1, rfl⟩⟩]) (onlyNodeN 3)).2 nodeN).map
        (fun pnode => pnode.ndSlots.isOccupied 2) = some false := by
    decide +kernel
  obtain ⟨pnode, found, free⟩ := Option.map_eq_some_iff.mp lost
  have used := ((recovered nodeN pnode found 2).1).mpr
    ⟨_, mem_singleton_self _, rfl, rfl⟩
  rw [free] at used
  contradiction

/-! ## The other reader -/

section

open Torque.JobArrays Torque.Numa

theorem decimalInt_natCast (n : Nat) : decimalInt n = decimal n := by
  simp [decimalInt]

/-- A sign and eight digits have room in `numbuf`. -/
theorem numbuf_cons (small : n < 10 ^ 8) (sign : Char) :
    numbuf (sign :: decimal n) = sign :: decimal n := by
  have length := (length_decimal_le_iff (by decide : 0 < 8)).mpr small
  exact take_of_length_le (Nat.succ_le_succ length)

/-- The loop writes what `translate_vector_to_range_string` writes, with the end of a run
still to come. -/
theorem rangeEnd_foldl_eq (written : List Char) {first prev : Nat} (ordered : first ≤ prev)
    (small : ∀ other ∈ prev :: rest, other < 10 ^ 8) :
    rangeEnd (rest.foldl rangeStep
        ⟨written ++ (if written = [] then [] else [',']) ++ decimal first, prev,
          decide (first ≠ prev)⟩) =
      vectorLoop (rest.map (↑)) written first prev := by
  induction rest generalizing written first prev with
  | nil =>
    have last := numbuf_cons (small prev mem_cons_self) '-'
    by_cases single : first = prev
    · simp [rangeEnd, vectorLoop, addRangeToString, printRange, decimalInt_natCast, single]
    · simp [rangeEnd, vectorLoop, addRangeToString, printRange, decimalInt_natCast, single, last]
  | cons next rest ih =>
    have later : ∀ other ∈ next :: rest, other < 10 ^ 8 :=
      (forall_mem_cons.mp small).2
    have last := numbuf_cons (small prev mem_cons_self) '-'
    have opening := numbuf_cons (later next mem_cons_self) ','
    by_cases run : prev + 1 = next
    · have onward : vectorLoop ((next :: rest).map (↑)) written first prev =
          vectorLoop (rest.map (↑)) written first next := if_pos (by exact_mod_cast run.symm)
      have grown : first ≠ next := by omega
      rw [foldl_cons, onward, ← ih written (by omega) later]
      by_cases single : first = prev
      · subst single
        simp [rangeStep, run, grown, decimal_ne_nil]
      · simp [rangeStep, single, run, grown]
    · have apart : ¬ (next : Int) = prev + 1 := by exact_mod_cast Ne.symm run
      have onward : vectorLoop ((next :: rest).map (↑)) written first prev =
          vectorLoop (rest.map (↑)) (addRangeToString written first prev) next next := if_neg apart
      rw [foldl_cons, onward, ← ih _ le_rfl later]
      by_cases single : first = prev
      · simp [rangeStep, single, run, addRangeToString, printRange, decimalInt_natCast, opening,
          decimal_ne_nil]
      · simp [rangeStep, single, run, addRangeToString, printRange, decimalInt_natCast, opening,
          last]

/-- The slots that are printed are read back as a vector, all of them and in order. -/
theorem slots_read_back (est : ExecutionSlotTracker)
    (few : est.getTotalExecutionSlots < 10 ^ 8) :
    ∃ indices : List Nat, translateRangeStringToVector (populateRangeStringFromSlotTracker est) =
        (true, indices.map (↑)) ∧
      indices.Pairwise (· < ·) ∧ ∀ index, index ∈ indices ↔ est.isOccupied index = true := by
  refine ⟨est.occupied, ?_, pairwise_occupiedFrom 0 _, fun index => mem_occupied⟩
  have small : ∀ index ∈ est.occupied, index < 10 ^ 8 :=
    fun index mem => (lt_of_isOccupied (mem_occupied.mp mem)).trans few
  have printed : populateRangeStringFromSlotTracker est =
      translateVectorToRangeString (est.occupied.map (↑)) := by
    unfold populateRangeStringFromSlotTracker
    cases occupied : est.occupied with
    | nil => rfl
    | cons first rest =>
      rw [occupied] at small
      have length : (decimal first).length ≤ 9 :=
        (length_decimal_le_iff (by decide)).mpr ((small first mem_cons_self).trans (by decide))
      have whole := rangeEnd_foldl_eq [] le_rfl small
      simpa [rangeStep, numbuf, take_of_length_le length, translateVectorToRangeString] using whole
  rw [printed]
  refine translateRangeStringToVector_translateVectorToRangeString
    (forall_mem_map.mpr fun slot inside => ?_)
  have bound := small slot inside
  omega

/-- The slots 0, 2 and 3 of five. -/
theorem slots_read_back_five :
    populateRangeStringFromSlotTracker ⟨[true, false, true, true, false], 2, rfl⟩ =
        "0,2-3".toList ∧
      ∃ indices : List Nat,
        translateRangeStringToVector
            (populateRangeStringFromSlotTracker ⟨[true, false, true, true, false], 2, rfl⟩) =
          (true, indices.map (↑)) ∧
        indices.Pairwise (· < ·) ∧ ∀ index, index ∈ indices ↔
          isOccupied ⟨[true, false, true, true, false], 2, rfl⟩ index = true :=
  ⟨by decide +kernel, slots_read_back _ (by decide)⟩

end

end Torque.Node
