import Torque.Server.Types
import Torque.Text.Decimal
import Torque.Text.Escape
import Torque.Transition.Run

/-!
# The dependency attribute of a job

A job keeps a list of dependencies.  Each has a type and, by its type, a count or the
ids of other jobs.  The list is built from the text a user gives, grows and shrinks as
other jobs register and unregister, and is written back to a text when the job is saved
or shown.
-/

namespace Torque.Dependency

open Torque.Server Torque.Text List

/-- The `JOB_DEPEND_TYPE_*` values. -/
inductive DependType where
  | afterStart
  | afterOk
  | afterNotOk
  | afterAny
  | beforeStart
  | beforeOk
  | beforeNotOk
  | beforeAny
  | on
  | syncWith
  | syncCt
  | afterStartArray
  | afterOkArray
  | afterNotOkArray
  | afterAnyArray
  | beforeStartArray
  | beforeOkArray
  | beforeNotOkArray
  | beforeAnyArray
  deriving DecidableEq

namespace DependType

/-- All types, in the order of their numbers. -/
def all : List DependType :=
  [afterStart, afterOk, afterNotOk, afterAny, beforeStart, beforeOk, beforeNotOk, beforeAny, on,
    syncWith, syncCt, afterStartArray, afterOkArray, afterNotOkArray, afterAnyArray,
    beforeStartArray, beforeOkArray, beforeNotOkArray, beforeAnyArray]

/-- The number of a type. -/
def code (type : DependType) : Nat :=
  all.idxOf type

/-- `dependnames`. -/
def name : DependType → List Char
  | afterStart => "after".toList
  | afterOk => "afterok".toList
  | afterNotOk => "afternotok".toList
  | afterAny => "afterany".toList
  | beforeStart => "before".toList
  | beforeOk => "beforeok".toList
  | beforeNotOk => "beforenotok".toList
  | beforeAny => "beforeany".toList
  | on => "on".toList
  | syncWith => "syncwith".toList
  | syncCt => "synccount".toList
  | afterStartArray => "afterstartarray".toList
  | afterOkArray => "afterokarray".toList
  | afterNotOkArray => "afternotokarray".toList
  | afterAnyArray => "afteranyarray".toList
  | beforeStartArray => "beforestartarray".toList
  | beforeOkArray => "beforeokarray".toList
  | beforeNotOkArray => "beforenotokarray".toList
  | beforeAnyArray => "beforeanyarray".toList

/-- The type with a name. -/
def ofName (word : List Char) : Option DependType :=
  all.find? fun type => type.name = word

/-- The type with a number. -/
def ofCode (code : Nat) : Option DependType :=
  all[code]?

/-- The mirror image that a registration is entered under: the number with its third bit
turned over. -/
def mirror (type : DependType) : Option DependType :=
  ofCode (type.code ^^^ 4)

/-- The types with a count in the place of jobs. -/
def isCount : DependType → Bool
  | on => true
  | syncCt => true
  | _ => false

/-- The types that do not go with `syncwith`. -/
def orders : DependType → Bool
  | afterStart => true
  | afterOk => true
  | afterNotOk => true
  | afterAny => true
  | on => true
  | syncCt => true
  | _ => false

end DependType

/-- The id of a job as a text. -/
abbrev JobId := List Char

/-- A `depend` structure: its type, the count of an `on` or `synccount`, and the jobs of
the others. -/
structure Depend where
  type : DependType
  numexp : Int := 0
  jobs : List JobId := []
  deriving DecidableEq

/-- The list of an attribute. -/
abbrev DependList := List Depend

/-! ## Job names -/

/-- What the server adds to the number of a job. -/
structure ServerNames where
  serverName : List Char
  jobSuffixAlias : Option (List Char)
  displayJobServerSuffix : Bool

/-- What is behind the first dot. -/
def behindDot (text : List Char) : Option (List Char) :=
  match text.dropWhile (· ≠ '.') with
  | [] => none
  | _ :: suffix => some suffix

section

variable (names : ServerNames)

/-- `get_correct_jobname`. -/
def getCorrectJobname (jobid : JobId) : JobId :=
  let firstSuffix := behindDot jobid
  let secondSuffix := firstSuffix.bind behindDot
  match names.displayJobServerSuffix, names.jobSuffixAlias with
  | true, some suffix =>
    match secondSuffix, firstSuffix with
    -- Nothing is assigned to the result if the second suffix is not the alias.
    | some second, _ => if second = suffix then jobid else []
    | none, none => jobid ++ '.' :: names.serverName ++ '.' :: suffix
    | none, some _ => jobid ++ '.' :: suffix
  | true, none =>
    match firstSuffix with
    | some _ => jobid
    | none => jobid ++ '.' :: names.serverName
  | false, some suffix => jobid.takeWhile (· ≠ '.') ++ '.' :: suffix
  | false, none => jobid.takeWhile (· ≠ '.')

/-- The id that `build_depend` makes of a word: the name without its server. -/
def childOfWord (word : List Char) : JobId :=
  (getCorrectJobname names word).takeWhile (· ≠ '@')

/-! ## Reading -/

/-- What ends a part of the text, if no backslash stands in front of it. -/
def isStop (c : Char) : Bool :=
  c = ',' || c = '\n'

/-- The text without the whitespace at its end. -/
def stripTrailing (text : List Char) : List Char :=
  (text.reverse.dropWhile isSpace).reverse

/-- `parse_comma_string`: the next part, and the text behind it. -/
def parseCommaString (text : List Char) : Option (List Char × List Char) :=
  if text = [] then none
  else
    let start := text.dropWhile fun c => c ≠ '\n' && isSpace c
    let (word, rest) := untilStop isStop false start
    some (stripTrailing word, rest)

/-- The words of `build_depend` behind the type: each ends at a colon that has no backslash
in front of it. -/
def dependWords : Nat → List Char → List (List Char)
  | _, [] => []
  | 0, _ :: _ => []
  | fuel + 1, nxwrd@(_ :: _) =>
    let (word, rest) := untilField ':' '\x00' nxwrd
    word :: dependWords fuel rest

/-- The words behind the first colon. -/
def argumentsOf (value : List Char) : List (List Char) :=
  match value.dropWhile (· ≠ ':') with
  | [] => []
  | _ :: nxwrd => dependWords nxwrd.length nxwrd

/-- The combinations of types that are not allowed. -/
def isRefused (type : DependType) (list : DependList) : Bool :=
  match type with
  | .syncWith => list.any fun pd => pd.type = .syncWith || pd.type.orders
  | .syncCt => list.any fun pd => pd.type = .syncWith || pd.type = .syncCt
  | type => type.orders && list.any fun pd => pd.type = .syncWith

/-- `have[type]`, with an empty dependency added if there is none. -/
def withType (type : DependType) (list : DependList) : DependList :=
  if list.any fun pd => pd.type = type then list else list ++ [{ type := type }]

/-- The dependency of a type is changed. -/
def changeType (type : DependType) (change : Depend → Depend) (list : DependList) : DependList :=
  list.map fun pd => if pd.type = type then change pd else pd

/-- The count of an `on` or `synccount`. -/
def readCount (word : List Char) : Option Int :=
  let (value, rest) := strtol word
  if asShort value < 1 ∨ rest ≠ [] then none else some (asShort value)

/-- `build_depend`: nothing if the text is refused. -/
def buildDepend (value : List Char) (list : DependList) : Option DependList :=
  match DependType.ofName (value.takeWhile (· ≠ ':')) with
  | none => none
  | some type =>
    if isRefused type list then none
    else if type.isCount then
      match argumentsOf value with
      | [] => some (withType type list)
      | [word] =>
        (readCount word).map fun count =>
          changeType type (fun pd => { pd with numexp := count }) (withType type list)
      | _ => none
    else
      some (changeType type
        (fun pd => { pd with jobs := pd.jobs ++ (argumentsOf value).map (childOfWord names) })
        (withType type list))

/-- The loop of `decode_depend`.  It ends at a part that is empty. -/
def decodeParts (names : ServerNames) : Nat → List Char → DependList → Option DependList
  | 0, _, list => some list
  | fuel + 1, text, list =>
    match parseCommaString text with
    | none => some list
    | some ([], _) => some list
    | some (valwd, rest) => (buildDepend names valwd list).bind (decodeParts names fuel rest)

/-- `decode_depend`. -/
def decodeDepend (val : List Char) : Option DependList :=
  decodeParts names val.length val []

/-! ## Writing -/

/-- A dependency with neither a count nor jobs is not written. -/
def isSkipped (pd : Depend) : Bool :=
  !pd.type.isCount && pd.jobs.isEmpty

/-- `cat_jobsvr`. -/
def catJobsvr (child : JobId) : List Char :=
  escape ':' child

/-- What is written for a dependency. -/
def dependText (pd : Depend) : List Char :=
  pd.type.name ++
    if pd.type.isCount then ':' :: decimalInt pd.numexp
    else pd.jobs.flatMap fun child => ':' :: catJobsvr child

variable (list : DependList)

/-- The dependencies behind the first one, each with a comma in front of it. -/
def encodeRest : List Char :=
  list.flatMap fun pd => if isSkipped pd then [] else ',' :: dependText pd

/-- The text of a list.  A dependency has a comma in front of it unless it is the first of the
list. -/
def encodeText : DependList → List Char
  | [] => []
  | pd :: rest => (if isSkipped pd then [] else dependText pd) ++ encodeRest rest

/-- The size of the buffer for the text, an `int`. -/
def encodeSize : Int :=
  asInt ((list.map fun pd => if pd.type.isCount then 30
    else 20 + pd.jobs.length * (pbsMaxsvrjobid + pbsMaxservername + 3)).sum + 1 : Nat)

/-- The text and its terminator fit the buffer. -/
def Fits : Prop :=
  (encodeText list).length + 1 ≤ encodeSize list
deriving Decidable

/-- What `encode_depend` writes. -/
inductive Encoded where
  /-- nothing: no dependency has entries -/
  | nothing
  | text (value : List Char)
  /-- more than the buffer holds -/
  | overrun
  deriving DecidableEq

/-- `encode_depend`. -/
def encodeDepend : Encoded :=
  if list.all isSkipped then .nothing
  else if Fits list then .text (encodeText list)
  else .overrun

/-! ## Registering -/

/-- `find_dependjob`: whether a job of the list goes by a name. -/
def namesJob (name child : JobId) : Bool :=
  child = name ||
    (!names.displayJobServerSuffix && name.isPrefixOf child && !name.contains '.')

/-- `register_dep`, with the type that the request names. -/
def registerDep (type : DependType) (child : JobId) (list : DependList) : DependList :=
  match type.mirror with
  | none => list
  | some type =>
    changeType type
      (fun pd =>
        if pd.jobs.any (namesJob names child) then pd
        else { pd with jobs := pd.jobs ++ [child] })
      (withType type list)

/-- The job that `find_dependjob` finds for a name is taken away from a dependency. -/
def removeEntry (type : DependType) (name : JobId) (list : DependList) : DependList :=
  changeType type (fun pd => { pd with jobs := pd.jobs.eraseP (namesJob names name) }) list

/-- `unregister_dep`; it changes nothing if there is no such job. -/
def unregisterDep (type : DependType) (child : JobId) (list : DependList) : DependList :=
  match type.mirror with
  | none => list
  | some type => removeEntry names type child list

/-- The requests about the dependencies of a job. -/
inductive DependRequest where
  | register (type : DependType) (child : JobId)
  | unregister (type : DependType) (child : JobId)

/-- One request.  `register_dep` is called for the types up to `beforeany` only. -/
def dependStep : DependRequest → DependList
  | .register type child =>
    if type.code < 8 then registerDep names type child list else list
  | .unregister type child => unregisterDep names type child list

end

/-! ## The types of a list -/

section

variable {type : DependType} {list : DependList}

theorem types_changeType {change : Depend → Depend} (same : ∀ pd, (change pd).type = pd.type) :
    (changeType type change list).map Depend.type = list.map Depend.type := by
  unfold changeType
  rw [map_map]
  apply map_congr_left
  intro pd _
  dsimp only [Function.comp]
  split
  · exact same pd
  · rfl

theorem nodup_types_withType (distinct : (list.map Depend.type).Nodup) :
    ((withType type list).map Depend.type).Nodup := by
  unfold withType
  split
  · exact distinct
  · next absent =>
    rw [map_append, nodup_append]
    refine ⟨distinct, nodup_cons.2 ⟨not_mem_nil, nodup_nil⟩, ?_⟩
    rintro _ mem _ new rfl
    obtain ⟨pd, listed, isType⟩ := mem_map.1 mem
    apply absent
    apply any_eq_true.2
    refine ⟨pd, listed, decide_eq_true ?_⟩
    rw [isType]
    exact mem_singleton.1 new

end

end Torque.Dependency
