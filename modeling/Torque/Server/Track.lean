import Torque.Server.Types
import Torque.Structure.SlotTable
import Torque.Transition.Run

/-!
# Job tracking records

A server learns from `req_track` requests of other servers where jobs have
moved and answers `req_locatejob` from those records.  The records live in an
array of slots: a slot whose `tk_mtime` is 0 is empty and can be reused, and
when every slot is in use the array is replaced by one half as large again.

The replacement copies `sv_tracksize` *bytes* of the old array, not that many
records, so a table that grows forgets its records.  As long as it does not
have to grow it stands for a map, which is what the main result says.
-/

namespace Torque.Server.Track

open Torque.Transition List SlotTable

/-- `struct tracking`.  The two strings are the bytes before the terminator. -/
structure Tracking where
  tkMtime : Nat
  tkHopcount : Int
  tkJobid : Name
  tkLocation : Name
  tkState : Char
  deriving DecidableEq, Repr

/-- A record of zero bytes, as `calloc` leaves it. -/
def Tracking.zero : Tracking :=
  ⟨0, 0, [], [], '\x00'⟩

/-- `struct rq_track`, the body of a Track Job request.  The request decoder
bounds both strings by the size of their fields. -/
structure RqTrack where
  rqHopcount : Int
  rqJid : Name
  rqLocation : Name
  rqState : Char
  jidLe : rqJid.length ≤ pbsMaxsvrjobid
  locationLe : rqLocation.length ≤ pbsMaxdest

/-- One call of `req_track`: the request, whether it came from a server, the
time of day, and whether an allocation made during the call succeeds. -/
structure TrackCall where
  fromsvr : Bool
  track : RqTrack
  timeNow : Nat
  calloc : Bool
  timePos : 0 < timeNow

/-- The part of `struct server` that holds tracking records. -/
structure TrackTable where
  svTrack : List Tracking
  svTrackmodifed : Bool
  deriving DecidableEq, Repr

/-- A table of `size` empty slots. -/
def TrackTable.init (size : Nat) : TrackTable :=
  ⟨replicate size .zero, false⟩

/-! ## Growing the table -/

/-- `sizeof(struct tracking)` with its padding on an LP64 platform. -/
def sizeofTracking : Nat := 2088

/-- Offset of `tk_jobid` in `struct tracking`. -/
def offsetJobid : Nat := 12

/-- Offset of `tk_location`. -/
def offsetLocation : Nat := offsetJobid + pbsMaxsvrjobid + 1

/-- Offset of `tk_state`. -/
def offsetState : Nat := offsetLocation + pbsMaxdest + 1

/-- A zeroed record over which the first `bytes` bytes of another record were
copied, on a little-endian machine. -/
def Tracking.copyBytes (record : Tracking) (bytes : Nat) : Tracking where
  tkMtime := record.tkMtime % 256 ^ min bytes 8
  tkHopcount :=
    if 12 ≤ bytes then record.tkHopcount
    else record.tkHopcount % 256 ^ (bytes - 8)
  tkJobid := record.tkJobid.take (bytes - offsetJobid)
  tkLocation := record.tkLocation.take (bytes - offsetLocation)
  tkState := if offsetState < bytes then record.tkState else '\x00'

section

variable (records : List Tracking)

/-- `memcpy` of `bytes` bytes from an array of records to a zeroed array of
`need` records. -/
def memcpyTracking (bytes need : Nat) : List Tracking :=
  (range need).map fun i =>
    ((records[i]?).getD .zero).copyBytes (bytes - i * sizeofTracking)

/-- The new array: half as many slots again, and a `memcpy` whose length is
the number of old slots. -/
def growTrack : List Tracking :=
  memcpyTracking records records.length (records.length * 3 / 2)

/-! ## The two requests -/

/-- The job a slot records, unless it is empty. -/
def Tracking.job (record : Tracking) : Option Name :=
  if record.tkMtime = 0 then none else some record.tkJobid

/-- The record written for a job that had none. -/
def Tracking.ofRequest (call : TrackCall) : Tracking where
  tkMtime := call.timeNow
  tkHopcount := call.track.rqHopcount
  tkJobid := call.track.rqJid
  tkLocation := call.track.rqLocation
  tkState := call.track.rqState

/-- What a request does to the record found for its job: discard it when the
job is exiting, otherwise update it if it is older. -/
def Tracking.update (record : Tracking) (call : TrackCall) : Tracking :=
  if call.track.rqState = 'E' then
    { record with tkMtime := 0 }
  else if record.tkHopcount < call.track.rqHopcount then
    { record with
      tkHopcount := call.track.rqHopcount
      tkLocation := call.track.rqLocation
      tkState := call.track.rqState
      tkMtime := call.timeNow }
  else
    record

/-- Index of the first live record of the job. -/
def findRecord (jid : Name) : Option Nat :=
  records.findIdx? fun record => decide (record.job = some jid)

/-- Index of the first empty slot. -/
def findEmpty : Option Nat :=
  records.findIdx? fun record => decide (record.tkMtime = 0)

end

/-- `req_track`. -/
def reqTrack (table : TrackTable) (call : TrackCall) : Except Pbse Unit × TrackTable :=
  if call.fromsvr = false then
    (.error .ivalreq, table)
  else
    match findRecord table.svTrack call.track.rqJid with
    | some i =>
      (.ok (), ⟨table.svTrack.modify i (·.update call), true⟩)
    | none =>
      if call.track.rqState = 'E' then
        (.ok (), table)
      else
        match findEmpty table.svTrack with
        | some i => (.ok (), ⟨table.svTrack.set i (.ofRequest call), true⟩)
        | none =>
          if call.calloc then
            -- the first new slot takes the record
            (.ok (), ⟨(growTrack table.svTrack).set table.svTrack.length
              (.ofRequest call), true⟩)
          else
            (.error .system, table)

/-- `req_locatejob`: the server's own name for a job it has, otherwise the
location in the tracking table.  `svrFindJob` tells which jobs are local. -/
def reqLocatejob (svrFindJob : Name → Bool) (serverName : Name)
    (table : TrackTable) (rqLocate : Name) : Except Pbse Name :=
  if svrFindJob (stripServer rqLocate) then
    .ok (serverName.take pbsMaxdest)
  else
    match table.svTrack.find? fun record => decide (record.job = some (stripServer rqLocate)) with
    | some record => .ok (record.tkLocation.take pbsMaxdest)
    | none => .error .unkjobid

/-! ## The map the table stands for -/

/-- The requests for a job since its last exit, oldest first. -/
def sinceExit (jid : Name) (history : List TrackCall) : List RqTrack :=
  (((history.filter fun call => call.fromsvr && decide (call.track.rqJid = jid)).map
    TrackCall.track).reverse.takeWhile fun track => decide (track.rqState ≠ 'E')).reverse

/-- The location the history gives for a job: that of the request with the
highest hop count since its last exit, the earliest one among equals. -/
def trackedLocation (jid : Name) (history : List TrackCall) : Option Name :=
  (newestBy RqTrack.rqHopcount (sinceExit jid history)).map RqTrack.rqLocation

/-- The call can be served without growing the table: it is rejected, it ends
the job, the job has a record, or there is an empty slot. -/
def NoGrowth (table : TrackTable) (call : TrackCall) : Prop :=
  call.fromsvr = false ∨ call.track.rqState = 'E' ∨
    (findRecord table.svTrack call.track.rqJid).isSome ∨ (findEmpty table.svTrack).isSome
deriving Decidable

/-- The table after a call. -/
def trackStep (table : TrackTable) (call : TrackCall) : TrackTable :=
  (reqTrack table call).2

/-! ### The records agree with the history -/

/-- What a record says about its job. -/
def Tracking.entry (record : Tracking) : Int × Name :=
  (record.tkHopcount, record.tkLocation)

/-- What a request says about its job. -/
def RqTrack.entry (track : RqTrack) : Int × Name :=
  (track.rqHopcount, track.rqLocation)

/-- The entry the history gives for a job. -/
def newestEntry (jid : Name) (history : List TrackCall) : Option (Int × Name) :=
  (newestBy RqTrack.rqHopcount (sinceExit jid history)).map RqTrack.entry

/-- What a request makes of the entry of its job. -/
def nextEntry (track : RqTrack) (entry : Option (Int × Name)) : Option (Int × Name) :=
  if track.rqState = 'E' then none
  else match entry with
    | none => some track.entry
    | some entry => if entry.1 < track.rqHopcount then some track.entry else some entry

/-- The table holds one record for each job the history knows, and none for
any other job. -/
structure Agrees (history : List TrackCall) (table : TrackTable) : Prop where
  unique : SlotTable.Unique Tracking.job table.svTrack
  entries : ∀ jid, (SlotTable.lookup Tracking.job table.svTrack jid).map Tracking.entry =
    newestEntry jid history

theorem agrees_init (size : Nat) : Agrees [] (.init size) where
  unique := by
    simp [SlotTable.Unique, TrackTable.init, Tracking.zero, Tracking.job]
  entries := by
    intro jid
    have absent : SlotTable.lookup Tracking.job (TrackTable.init size).svTrack jid = none := by
      rw [SlotTable.lookup_eq_none_iff]
      intro slot mem
      rw [eq_of_mem_replicate mem]
      simp [Tracking.zero, Tracking.job]
    simp [absent, newestEntry, sinceExit]

variable {call : TrackCall} {history : List TrackCall} {table : TrackTable}

theorem newestEntry_append (jid : Name) :
    newestEntry jid (history ++ [call]) =
      if call.fromsvr = true ∧ call.track.rqJid = jid then
        nextEntry call.track (newestEntry jid history)
      else newestEntry jid history := by
  unfold newestEntry
  split
  · next affected =>
    obtain ⟨server, rfl⟩ := affected
    unfold nextEntry
    by_cases exits : call.track.rqState = 'E'
    · simp [sinceExit, filter_append, server, exits]
    · have moved : sinceExit call.track.rqJid (history ++ [call]) =
          sinceExit call.track.rqJid history ++ [call.track] := by
        simp [sinceExit, filter_append, server, exits]
      rw [moved, newestBy_concat, if_neg exits]
      cases newestBy RqTrack.rqHopcount (sinceExit call.track.rqJid history) with
      | none => rfl
      | some newest =>
        by_cases newer : newest.rqHopcount < call.track.rqHopcount <;>
          simp [newer, RqTrack.entry]
  · next ignored =>
    have dropped : (call.fromsvr && decide (call.track.rqJid = jid)) = false := by
      simpa using ignored
    simp [sinceExit, filter_append, dropped]

/-! ### The slot a call works on -/

@[simp]
theorem Tracking.job_ofRequest (call : TrackCall) :
    (Tracking.ofRequest call).job = some call.track.rqJid := by
  simp [Tracking.job, Tracking.ofRequest, call.timePos.ne']

/-- A record that is updated is that of its job, or empty. -/
theorem Tracking.job_update {record : Tracking} (live : record.job = some call.track.rqJid) :
    (record.update call).job =
      if call.track.rqState = 'E' then none else some call.track.rqJid := by
  unfold Tracking.update
  split
  · rfl
  · split
    · have jobid : record.tkJobid = call.track.rqJid := by
        by_cases empty : record.tkMtime = 0 <;> simp_all [Tracking.job]
      simp [Tracking.job, jobid, call.timePos.ne']
    · exact live

theorem Tracking.entry_update (record : Tracking) (stays : call.track.rqState ≠ 'E') :
    some (record.update call).entry = nextEntry call.track (some record.entry) := by
  by_cases newer : record.tkHopcount < call.track.rqHopcount <;>
    simp [Tracking.update, Tracking.entry, RqTrack.entry, nextEntry, stays, newer]

/-! ### One call -/

section

variable (agrees : Agrees history table)
include agrees

/-- A slot is written that is empty or that of the job, and is so afterwards. -/
theorem Agrees.write {before after : List Tracking} {old new : Tracking}
    (records : table.svTrack = before ++ old :: after) (server : call.fromsvr = true)
    (absent : SlotTable.Absent Tracking.job (before ++ after) call.track.rqJid)
    (earlier : ∀ jid, old.job = some jid → call.track.rqJid = jid)
    (later : ∀ jid, new.job = some jid → call.track.rqJid = jid)
    (entry : (if new.job = some call.track.rqJid then some new else none).map Tracking.entry =
      nextEntry call.track
        ((if old.job = some call.track.rqJid then some old else none).map Tracking.entry)) :
    Agrees (history ++ [call]) ⟨before ++ new :: after, true⟩ := by
  have unique := agrees.unique
  rw [records, unique_middle_iff] at unique
  refine ⟨unique_middle_iff.mpr ⟨unique.1, fun jid held => later jid held ▸ absent⟩, ?_⟩
  intro jid
  rw [newestEntry_append, ← agrees.entries, records]
  by_cases same : call.track.rqJid = jid
  · subst same
    rw [if_pos ⟨server, rfl⟩, lookup_middle absent, lookup_middle absent, entry]
  · rw [if_neg fun both => same both.2,
      lookup_write_of_ne (mt (earlier jid) same) (mt (later jid) same)]

theorem agrees_update {i : Nat} (server : call.fromsvr = true)
    (found : findRecord table.svTrack call.track.rqJid = some i) :
    Agrees (history ++ [call]) ⟨table.svTrack.modify i (·.update call), true⟩ := by
  obtain ⟨before, record, after, records, rfl, held, -⟩ := exists_split_of_findIdx? found
  have live := of_decide_eq_true held
  have job := Tracking.job_update live
  have unique := agrees.unique
  rw [records, unique_middle_iff] at unique
  have modified : table.svTrack.modify before.length (·.update call) =
      before ++ record.update call :: after := by
    rw [records, modify_eq_set_getElem?]
    simp
  rw [modified]
  refine agrees.write records server (unique.2 _ live) ?_ ?_ ?_
  · intro jid known
    exact Option.some.inj (live.symm.trans known)
  · intro jid known
    rw [job] at known
    split at known
    · contradiction
    · exact Option.some.inj known
  · rw [job, if_pos live]
    by_cases exits : call.track.rqState = 'E'
    · simp [exits, nextEntry]
    · rw [if_neg exits, if_pos rfl]
      exact Tracking.entry_update record exits

theorem agrees_insert {i : Nat} (server : call.fromsvr = true) (stays : call.track.rqState ≠ 'E')
    (missing : SlotTable.Absent Tracking.job table.svTrack call.track.rqJid)
    (found : findEmpty table.svTrack = some i) :
    Agrees (history ++ [call]) ⟨table.svTrack.set i (.ofRequest call), true⟩ := by
  obtain ⟨before, record, after, records, rfl, empty, -⟩ := exists_split_of_findIdx? found
  have idle : record.job = none := if_pos (of_decide_eq_true empty)
  have written : table.svTrack.set before.length (.ofRequest call) =
      before ++ .ofRequest call :: after := by
    rw [records]
    simp
  rw [records] at missing
  rw [written]
  refine agrees.write records server ?_ (by simp [idle]) (by simp) ?_
  · have others := (sublist_cons_self record after).append_left before
    exact fun slot mem => missing slot (others.subset mem)
  · simp only [Tracking.job_ofRequest, idle, nextEntry, if_neg stays, if_true]
    rfl

/-- A call that changes nothing, for a job the history does not know. -/
theorem agrees_skip
    (skipped : call.fromsvr = true → call.track.rqState = 'E' ∧
      SlotTable.Absent Tracking.job table.svTrack call.track.rqJid) :
    Agrees (history ++ [call]) table := by
  refine ⟨agrees.unique, ?_⟩
  intro jid
  rw [newestEntry_append, ← agrees.entries]
  split
  · next affected =>
    obtain ⟨server, rfl⟩ := affected
    obtain ⟨exits, missing⟩ := skipped server
    rw [SlotTable.lookup_eq_none_iff.mpr missing]
    simp [nextEntry, exits]
  · rfl

/-- A call that does not grow the table keeps it in agreement with the
history. -/
theorem agrees_trackStep (noGrowth : NoGrowth table call) :
    Agrees (history ++ [call]) (trackStep table call) := by
  unfold trackStep reqTrack
  by_cases client : call.fromsvr = false
  · rw [if_pos client]
    exact agrees_skip agrees (by simp [client])
  · have server : call.fromsvr = true := by simpa using client
    rw [if_neg client]
    cases found : findRecord table.svTrack call.track.rqJid with
    | some i => exact agrees_update agrees server found
    | none =>
      have missing : SlotTable.Absent Tracking.job table.svTrack call.track.rqJid :=
        fun record mem => by simpa using findIdx?_eq_none_iff.mp found record mem
      by_cases exits : call.track.rqState = 'E'
      · simp only [if_pos exits]
        exact agrees_skip agrees fun _ => ⟨exits, missing⟩
      · simp only [if_neg exits]
        cases empty : findEmpty table.svTrack with
        | some i => exact agrees_insert agrees server exits missing empty
        | none => simp [NoGrowth, server, exits, found, empty] at noGrowth

end

/-! ## Locating a job -/

/-- **The tracking table is a map** in every run in which no call grows it: a
job that is not local is located by the request with the highest hop count
since its last exit, and is unknown if there is none. -/
theorem reqLocatejob_tracks (size : Nat) (calls : List TrackCall)
    (noGrowth : Admissible trackStep NoGrowth (.init size) calls)
    (svrFindJob : Name → Bool) (serverName rqLocate : Name)
    (remote : svrFindJob (stripServer rqLocate) = false) :
    reqLocatejob svrFindJob serverName (run trackStep (.init size) calls) rqLocate =
      match trackedLocation (stripServer rqLocate) calls with
      | some location => .ok location
      | none => .error .unkjobid := by
  have agrees : Agrees calls (run trackStep (.init size) calls) :=
    history_invariant Agrees (agrees_init size)
      (fun _ _ _ holds ok => agrees_trackStep holds ok) noGrowth
  have entry := agrees.entries (stripServer rqLocate)
  unfold SlotTable.lookup newestEntry at entry
  unfold reqLocatejob trackedLocation
  simp only [remote, Bool.false_eq_true, if_false]
  cases newest : newestBy RqTrack.rqHopcount (sinceExit (stripServer rqLocate) calls) with
  | none =>
    rw [newest, Option.map_none, Option.map_eq_none_iff] at entry
    rw [entry]
    rfl
  | some track =>
    rw [newest, Option.map_some] at entry
    obtain ⟨record, found, same⟩ := Option.map_eq_some_iff.mp entry
    have location : record.tkLocation = track.rqLocation := congrArg Prod.snd same
    rw [found]
    simp [location, take_of_length_le track.locationLe]

/-- A Track Job request sent by a server at time 1. -/
def serverCall (jid location : String) (hopcount : Int) (state : Char)
    (jidLe : jid.toList.length ≤ pbsMaxsvrjobid)
    (locationLe : location.toList.length ≤ pbsMaxdest) : TrackCall where
  fromsvr := true
  track := ⟨hopcount, jid.toList, location.toList, state, jidLe, locationLe⟩
  timeNow := 1
  calloc := true
  timePos := Nat.one_pos

/-- Two jobs in two slots, one of which moves on, ends and makes room for a
third. -/
def reuseHistory : List TrackCall :=
  [serverCall "1.a" "b" 1 'Q' (by decide) (by decide),
    serverCall "2.a" "b" 1 'Q' (by decide) (by decide),
    serverCall "2.a" "c" 2 'Q' (by decide) (by decide),
    serverCall "1.a" "b" 2 'E' (by decide) (by decide),
    serverCall "3.a" "d" 1 'Q' (by decide) (by decide)]

theorem reqLocatejob_tracks_reuseHistory :
    trackedLocation "2.a".toList reuseHistory = some "c".toList ∧
      reqLocatejob (fun _ => false) "a".toList (run trackStep (.init 2) reuseHistory)
        "2.a".toList = .ok "c".toList := by
  have known : trackedLocation "2.a".toList reuseHistory = some "c".toList := by decide +kernel
  refine ⟨known, ?_⟩
  have located := reqLocatejob_tracks 2 reuseHistory (by decide +kernel) (fun _ => false)
    "a".toList "2.a".toList rfl
  exact located

/-- Three jobs in a table that starts with two slots. -/
def growthHistory : List TrackCall :=
  [serverCall "1.a" "b" 1 'Q' (by decide) (by decide),
    serverCall "2.a" "b" 1 'Q' (by decide) (by decide),
    serverCall "3.a" "b" 1 'Q' (by decide) (by decide)]

/-- The third job makes the table grow, and the server forgets the second
one. -/
theorem reqLocatejob_growthHistory :
    ¬ ∀ (size : Nat) (calls : List TrackCall) (svrFindJob : Name → Bool)
      (serverName rqLocate : Name), 2 ≤ size →
      (∀ call ∈ calls, call.fromsvr = true ∧ call.calloc = true) →
      svrFindJob (stripServer rqLocate) = false →
      reqLocatejob svrFindJob serverName (run trackStep (.init size) calls) rqLocate =
        match trackedLocation (stripServer rqLocate) calls with
        | some location => .ok location
        | none => .error .unkjobid := by
  intro claimed
  have located := claimed 2 growthHistory (fun _ => false) "a".toList "2.a".toList
    (by decide) (by decide +kernel) rfl
  revert located
  decide +kernel

end Torque.Server.Track
