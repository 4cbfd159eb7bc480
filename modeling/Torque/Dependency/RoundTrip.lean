import Torque.Dependency.JobName
import Mathlib.Data.List.Pairwise

/-!
# Writing and reading dependencies

A dependency list that is written by `encode_depend` and read by `decode_depend` should
come back.  Five things get in the way.  A first dependency that has lost its jobs leaves
a comma at the beginning of the text, and reading stops there.  A count that was never
given is written as 0, and 0 is refused.  A registration can bring an ordering dependency
next to `syncwith`, which is refused too.  A colon in the name of a job is escaped by
the writer but not restored by the reader.  And the buffer that is written to has room for
names of the length that names should have, while longer ones are accepted.
-/

namespace Torque.Dependency

open Torque.Text Torque.Transition List

/-! ## The lists that can be reached -/

/-- Only a type with jobs has jobs, and only a type with a count has one. -/
structure SoundDepend (pd : Depend) : Prop where
  counts : pd.type.isCount = true → pd.jobs = [] ∧ 0 ≤ pd.numexp ∧ pd.numexp < 2 ^ 15
  jobs : pd.type.isCount = false → pd.numexp = 0

/-- What holds of every list that is built. -/
structure Sound (list : DependList) : Prop where
  types : (list.map Depend.type).Nodup
  each : ∀ pd ∈ list, SoundDepend pd

theorem sound_nil : Sound [] :=
  ⟨nodup_nil, nofun⟩

namespace Sound

variable {list : DependList}

theorem withType (sound : Sound list) (type : DependType) : Sound (withType type list) := by
  have types : ((Dependency.withType type list).map Depend.type).Nodup :=
    nodup_types_withType sound.types
  unfold Dependency.withType at types ⊢
  split
  · exact sound
  · next absent =>
    rw [if_neg absent] at types
    refine ⟨types, forall_mem_append.2 ⟨sound.each, forall_mem_singleton.2 ⟨fun _ => ?_, ?_⟩⟩⟩
    · exact ⟨rfl, le_rfl, Int.pow_pos (by decide)⟩
    · exact fun _ => rfl

/-- A change that keeps the type and what goes with it. -/
theorem changeType (sound : Sound list) {type : DependType} {change : Depend → Depend}
    (same : ∀ pd, (change pd).type = pd.type)
    (keeps : ∀ pd, pd.type = type → SoundDepend pd → SoundDepend (change pd)) :
    Sound (changeType type change list) := by
  constructor
  · rw [types_changeType same]
    exact sound.types
  · refine forall_mem_map.2 fun pd mem => ?_
    split
    · next isType => exact keeps pd isType (sound.each pd mem)
    · exact sound.each pd mem

end Sound

variable {word text : List Char} {type : DependType} {fuel : Nat} {pd : Depend} {n : Nat}
  {list : DependList} {names : ServerNames}

theorem readCount_bounds {count : Int} (read : readCount word = some count) :
    1 ≤ count ∧ count < 2 ^ 15 := by
  unfold readCount at read
  dsimp only at read
  split at read
  · exact absurd read nofun
  · next good =>
    obtain rfl := Option.some.inj read
    rw [not_or, not_lt] at good
    refine ⟨good.1, ?_⟩
    have upper : asShort (strtol word).1 < (2 ^ 16 + 1) / 2 := Int.bmod_lt (by decide)
    omega

theorem Sound.buildDepend {value : List Char} {built : DependList}
    (sound : Sound list) (accepted : buildDepend names value list = some built) : Sound built := by
  unfold Dependency.buildDepend at accepted
  split at accepted
  · exact absurd accepted nofun
  · next type _ =>
    split at accepted
    · exact absurd accepted nofun
    · split at accepted
      · next isCount =>
        split at accepted
        · obtain rfl := Option.some.inj accepted
          exact sound.withType type
        · obtain ⟨count, read, rfl⟩ := Option.map_eq_some_iff.1 accepted
          have bounds := readCount_bounds read
          refine (sound.withType type).changeType (fun _ => rfl) fun pd isType before => ⟨?_, ?_⟩
          · intro count
            exact ⟨(before.counts count).1, zero_le_one.trans bounds.1, bounds.2⟩
          · intro other
            rw [isType, isCount] at other
            exact absurd other nofun
        · exact absurd accepted nofun
      · next notCount =>
        obtain rfl := Option.some.inj accepted
        exact (sound.withType type).changeType (fun _ => rfl) fun pd isType before =>
          ⟨fun count => absurd (isType ▸ count) notCount, before.jobs⟩

theorem Sound.decodeParts {decoded : DependList}
    (sound : Sound list) (accepted : decodeParts names fuel text list = some decoded) :
    Sound decoded := by
  induction fuel generalizing text list with
  | zero =>
    obtain rfl := Option.some.inj accepted
    exact sound
  | succ fuel ih =>
    rw [Dependency.decodeParts] at accepted
    split at accepted
    · obtain rfl := Option.some.inj accepted
      exact sound
    · obtain rfl := Option.some.inj accepted
      exact sound
    · obtain ⟨built, accepts, later⟩ := Option.bind_eq_some_iff.1 accepted
      exact ih (sound.buildDepend accepts) later

/-- The types that are registered have jobs. -/
theorem isCount_mirror {mirrored : DependType} (order : type.code < 8)
    (mirrors : type.mirror = some mirrored) : mirrored.isCount = false := by
  cases type <;> first | exact absurd order (by decide) |
    (obtain rfl := Option.some.inj mirrors
     rfl)

theorem Sound.dependStep (sound : Sound list) (request : DependRequest) :
    Sound (dependStep names list request) := by
  cases request with
  | register type child =>
    dsimp only [Dependency.dependStep]
    split
    · next order =>
      unfold registerDep
      split
      · exact sound
      · next mirrored mirrors =>
        have notCount := isCount_mirror order mirrors
        apply (sound.withType mirrored).changeType
        · intro pd
          split <;> rfl
        · intro pd isType before
          split
          · exact before
          · refine ⟨fun count => ?_, before.jobs⟩
            rw [isType, notCount] at count
            exact absurd count nofun
    · exact sound
  | unregister type child =>
    dsimp only [Dependency.dependStep]
    unfold unregisterDep removeEntry
    split
    · exact sound
    · refine sound.changeType (fun _ => rfl) fun pd _ before => ⟨fun count => ?_, before.jobs⟩
      exact ⟨by rw [(before.counts count).1]; rfl, (before.counts count).2⟩

/-! ## The text of one dependency -/

/-- A name with no comma or line end that would end the part, and with neither a backslash
nor whitespace at its end. -/
@[mk_iff]
structure Tidy (child : JobId) : Prop where
  nonempty : child ≠ []
  unbroken : unbroken isStop false child = true
  noBackslash : child.getLastD '\x00' ≠ '\\'
  noSpace : isSpace (child.getLastD '\x00') = false

instance (child : JobId) : Decidable (Tidy child) :=
  decidable_of_iff _ (tidy_iff child).symm

/-- The names of a list are tidy. -/
def TidyList (list : DependList) : Prop :=
  ∀ pd ∈ list, ∀ child ∈ pd.jobs, Tidy child
deriving Decidable

theorem dependWords_eq_cons {rest : List Char} (nonempty : text ≠ [])
    (enough : text.length ≤ fuel) (field : untilField ':' '\x00' text = (word, rest)) :
    dependWords fuel text = word :: dependWords (fuel - 1) rest := by
  obtain ⟨c, more, rfl⟩ := exists_cons_of_ne_nil nonempty
  obtain ⟨fuel, rfl⟩ := Nat.exists_eq_add_of_le' (Nat.one_le_of_lt enough)
  rw [dependWords, field]
  rfl

theorem dependWords_nil (fuel : Nat) : dependWords fuel [] = [] := by
  cases fuel <;> rfl

/-- The words of a dependency are its jobs as they were written. -/
theorem dependWords_jobs {child : JobId} {jobs : List JobId}
    (tidy : ∀ other ∈ child :: jobs, Tidy other)
    (enough : (catJobsvr child ++ jobs.flatMap fun other => ':' :: catJobsvr other).length ≤ fuel) :
    dependWords fuel (catJobsvr child ++ jobs.flatMap fun other => ':' :: catJobsvr other) =
      (child :: jobs).map catJobsvr := by
  induction jobs generalizing child fuel with
  | nil =>
    have written : catJobsvr child ≠ [] :=
      escape_eq_nil_iff.not.2 (tidy child mem_cons_self).nonempty
    have field : untilField ':' '\x00' (catJobsvr child) = (catJobsvr child, []) :=
      untilField_escape (by decide)
    rw [flatMap_nil, append_nil] at enough ⊢
    rw [dependWords_eq_cons written enough field, dependWords_nil]
    rfl
  | cons next jobs ih =>
    have first := tidy child mem_cons_self
    have field : untilField ':' '\x00' (catJobsvr child ++ ':' :: (catJobsvr next ++
        jobs.flatMap fun other => ':' :: catJobsvr other)) =
        (catJobsvr child, catJobsvr next ++ jobs.flatMap fun other => ':' :: catJobsvr other) :=
      untilField_escape_append (by decide) first.noBackslash
    rw [flatMap_cons, cons_append] at enough ⊢
    rw [dependWords_eq_cons (append_ne_nil_of_right_ne_nil _ (cons_ne_nil _ _)) enough field,
      map_cons, ih (forall_mem_cons.1 tidy).2]
    rw [length_append, length_cons] at enough
    omega

theorem all_name_plain (type : DependType) :
    type.name.all (fun c => !(c == '\\' || c == ':' || isStop c || isSpace c)) = true := by
  cases type <;> rfl

theorem mem_name_plain (type : DependType) :
    ∀ c ∈ type.name, c ≠ '\\' ∧ c ≠ ':' ∧ isStop c = false ∧ isSpace c = false := by
  intro c mem
  have plain := all_eq_true.1 (all_name_plain type) c mem
  simp only [Bool.not_eq_true', Bool.or_eq_false_iff, beq_eq_false_iff_ne] at plain
  obtain ⟨⟨⟨backslash, colon⟩, stop⟩, space⟩ := plain
  exact ⟨backslash, colon, stop, space⟩

theorem name_ne_nil (type : DependType) : type.name ≠ [] := by
  cases type <;> decide

theorem ofName_name (type : DependType) : DependType.ofName type.name = some type := by
  cases type <;> decide +kernel

/-- What stands behind the name of a dependency that is written. -/
def dependArguments (pd : Depend) : List Char :=
  if pd.type.isCount then decimalInt pd.numexp
  else catJobsvr (pd.jobs.headD []) ++ pd.jobs.tail.flatMap fun child => ':' :: catJobsvr child

/-- A dependency that is written is a name, a colon and the rest. -/
theorem dependText_eq (written : isSkipped pd = false) :
    dependText pd = pd.type.name ++ ':' :: dependArguments pd := by
  unfold dependText dependArguments
  cases count : pd.type.isCount with
  | true => rfl
  | false =>
    cases jobs : pd.jobs with
    | nil => simp [isSkipped, count, jobs] at written
    | cons child jobs => rfl

theorem takeWhile_dependText (written : isSkipped pd = false) :
    (dependText pd).takeWhile (· ≠ ':') = pd.type.name := by
  rw [dependText_eq written, takeWhile_append_of_pos, takeWhile_cons_of_neg, append_nil]
  · simp
  · intro c mem
    exact decide_eq_true (mem_name_plain pd.type c mem).2.1

theorem argumentsOf_dependText (written : isSkipped pd = false) :
    argumentsOf (dependText pd) =
      dependWords (dependArguments pd).length (dependArguments pd) := by
  have behind : (dependText pd).dropWhile (· ≠ ':') = ':' :: dependArguments pd := by
    rw [dependText_eq written, dropWhile_append_of_pos, dropWhile_cons_of_neg]
    · simp
    · intro c mem
      exact decide_eq_true (mem_name_plain pd.type c mem).2.1
  rw [argumentsOf, behind]

/-! ## Reading one dependency back -/

/-- A count is read back, except for 0. -/
theorem readCount_decimal (small : n < 2 ^ 15) :
    readCount (decimal n) = if n < 1 then none else some (n : Int) := by
  have read : strtol (decimal n) = ((n : Int), []) := by
    have digits : strtol (decimal n ++ []) = ((digitsValue (decimal n) : Int), []) :=
      strtol_digits (decimal_ne_nil n) (fun _ mem => isDigit_decimal mem) nofun
        (by rw [digitsValue_decimal]; omega)
    rwa [append_nil, digitsValue_decimal] at digits
  rw [readCount, read]
  dsimp only
  rw [asShort_of_lt (Int.natCast_nonneg n) (by omega)]
  simp only [ne_eq, not_true_eq_false, or_false, Nat.cast_lt_one, Nat.lt_one_iff]

theorem dependWords_decimal (n : Nat) :
    dependWords (decimal n).length (decimal n) = [decimal n] := by
  have clean : ':' ∉ decimal n := fun mem => absurd (isDigit_decimal mem) (by decide)
  have field : untilField ':' '\x00' (decimal n) = (decimal n, []) := by
    have escaped : untilField ':' '\x00' (escape ':' (decimal n)) = (escape ':' (decimal n), []) :=
      untilField_escape (by decide)
    rwa [escape_of_not_mem clean] at escaped
  rw [dependWords_eq_cons (decimal_ne_nil n) le_rfl field, dependWords_nil]

/-- A dependency with its names as they are read. -/
def reread (names : ServerNames) (pd : Depend) : Depend :=
  { pd with jobs := pd.jobs.map (readBack names) }

/-- A count that was not given. -/
def isUncounted (pd : Depend) : Bool :=
  pd.type.isCount && pd.numexp < 1

theorem withType_new (fresh : type ∉ list.map Depend.type) :
    withType type list = list ++ [{ type := type }] := by
  rw [withType, if_neg]
  rw [any_eq_true]
  rintro ⟨pd, mem, equal⟩
  exact fresh (mem_map.2 ⟨pd, mem, of_decide_eq_true equal⟩)

theorem changeType_new {change : Depend → Depend} (fresh : type ∉ list.map Depend.type) :
    changeType type change (withType type list) = list ++ [change { type := type }] := by
  rw [withType_new fresh, changeType, map_append, map_singleton, if_pos rfl]
  congr 1
  conv_rhs => rw [← map_id list]
  apply map_congr_left
  intro pd mem
  rw [if_neg, id]
  intro equal
  exact fresh (equal ▸ mem_map_of_mem mem)

/-- What holds of a dependency of a reachable list that is written. -/
structure Written (pd : Depend) : Prop extends SoundDepend pd where
  unskipped : isSkipped pd = false
  tidy : ∀ child ∈ pd.jobs, Tidy child

theorem Written.jobs_ne_nil (written : Written pd) (count : pd.type.isCount = false) :
    pd.jobs ≠ [] := by
  intro empty
  simpa [isSkipped, count, empty] using written.unskipped

section

variable {names : ServerNames} {pd : Depend} {list : DependList}

variable (written : Written pd)
include written

theorem buildDepend_count (count : pd.type.isCount = true)
    (accepted : isRefused pd.type list = false) (fresh : pd.type ∉ list.map Depend.type) :
    buildDepend names (dependText pd) list =
      if isUncounted pd then none else some (list ++ [reread names pd]) := by
  obtain ⟨empty, nonneg, small⟩ := written.counts count
  obtain ⟨n, number⟩ := Int.eq_ofNat_of_zero_le nonneg
  have text : dependArguments pd = decimal n := by
    rw [dependArguments, if_pos count, decimalInt, if_pos nonneg, number, Int.toNat_natCast]
  have uncounted : isUncounted pd = decide (n < 1) := by
    rw [isUncounted, count, number, Bool.true_and]
    exact decide_eq_decide.2 (by omega)
  have same : reread names pd = { type := pd.type, numexp := n, jobs := [] } := by
    rw [reread, empty, ← number]
    rfl
  unfold buildDepend
  rw [takeWhile_dependText written.unskipped, ofName_name,
    argumentsOf_dependText written.unskipped, text,
    dependWords_decimal]
  dsimp only
  rw [accepted, if_neg Bool.false_ne_true, count, if_pos rfl, readCount_decimal (by omega),
    uncounted, same]
  by_cases zero : n < 1
  · rw [if_pos zero, if_pos (decide_eq_true zero), Option.map_none]
  · rw [if_neg zero, if_neg (by simpa using zero), Option.map_some, changeType_new fresh]

theorem buildDepend_jobs (count : pd.type.isCount = false)
    (accepted : isRefused pd.type list = false) (fresh : pd.type ∉ list.map Depend.type) :
    buildDepend names (dependText pd) list = some (list ++ [reread names pd]) := by
  obtain ⟨child, jobs, split⟩ := exists_cons_of_ne_nil (written.jobs_ne_nil count)
  have text : dependArguments pd =
      catJobsvr child ++ jobs.flatMap fun other => ':' :: catJobsvr other := by
    rw [dependArguments, count, if_neg Bool.false_ne_true, split]
    rfl
  have same : reread names pd = { type := pd.type, jobs := pd.jobs.map (readBack names) } := by
    rw [reread, written.jobs count]
  unfold buildDepend
  rw [takeWhile_dependText written.unskipped, ofName_name,
    argumentsOf_dependText written.unskipped, text,
    dependWords_jobs (split ▸ written.tidy) le_rfl, ← split]
  dsimp only
  rw [accepted, if_neg Bool.false_ne_true, count, if_neg Bool.false_ne_true, changeType_new fresh,
    map_map, same]
  rfl

/-- A dependency that is written is read back with its names as they are read, unless it is
refused. -/
theorem buildDepend_dependText (fresh : pd.type ∉ list.map Depend.type) :
    buildDepend names (dependText pd) list =
      if isRefused pd.type list || isUncounted pd then none
      else some (list ++ [reread names pd]) := by
  cases refused : isRefused pd.type list with
  | true =>
    unfold buildDepend
    rw [takeWhile_dependText written.unskipped, ofName_name]
    dsimp only
    rw [refused, if_pos rfl, Bool.true_or, if_pos rfl]
  | false =>
    rw [Bool.false_or]
    cases count : pd.type.isCount with
    | true => exact buildDepend_count written count refused fresh
    | false =>
      rw [buildDepend_jobs written count refused fresh, isUncounted, count,
        Bool.false_and, if_neg Bool.false_ne_true]

end

variable {fuel more : Nat} {text rest part : List Char}

/-! ## Fuel -/

/-- The length of the text is enough fuel for its words. -/
theorem dependWords_of_length_le (enough : text.length ≤ fuel) (enough' : text.length ≤ more) :
    dependWords fuel text = dependWords more text := by
  induction fuel generalizing more text with
  | zero =>
    obtain rfl := length_eq_zero_iff.1 (Nat.le_zero.1 enough)
    cases more <;> rfl
  | succ fuel ih =>
    match text, more with
    | [], 0 => rfl
    | [], _ + 1 => rfl
    | c :: text, more + 1 =>
      have shorter := length_untilField_le ':' '\x00' (c :: text)
      rw [dependWords, dependWords]
      dsimp only
      congr 1
      exact ih (by omega) (by omega)

/-- A part takes some of the text. -/
theorem length_parseCommaString_lt
    (parsed : parseCommaString text = some (part, rest)) : rest.length < text.length := by
  unfold parseCommaString at parsed
  split at parsed
  · exact absurd parsed nofun
  · next nonempty =>
    have positive := length_pos_of_ne_nil nonempty
    have start := (dropWhile_suffix (l := text) fun c => c ≠ '\n' && isSpace c).length_le
    obtain ⟨-, rfl⟩ := Prod.mk.inj (Option.some.inj parsed)
    have shorter := length_untilStop_le isStop false
      (text.dropWhile fun c => c ≠ '\n' && isSpace c)
    omega

theorem decodeParts_nil (names : ServerNames) (fuel : Nat) (list : DependList) :
    decodeParts names fuel [] list = some list := by
  cases fuel <;> rfl

/-- The length of the text is enough fuel for `decode_depend`. -/
theorem decodeParts_of_length_le (enough : text.length ≤ fuel) (enough' : text.length ≤ more) :
    decodeParts names fuel text list = decodeParts names more text list := by
  induction fuel generalizing more text list with
  | zero =>
    obtain rfl := length_eq_zero_iff.1 (Nat.le_zero.1 enough)
    rw [decodeParts_nil, decodeParts_nil]
  | succ fuel ih =>
    cases more with
    | zero =>
      obtain rfl := length_eq_zero_iff.1 (Nat.le_zero.1 enough')
      rw [decodeParts_nil, decodeParts_nil]
    | succ more =>
      rw [decodeParts, decodeParts]
      split
      · rfl
      · rfl
      · next valwd rest _ parsed =>
        have shorter := length_parseCommaString_lt parsed
        congr 1
        funext built
        exact ih (by omega) (by omega)

/-! ## Reading a list back -/

theorem stripTrailing_of_last (last : isSpace (text.getLastD '\x00') = false) :
    stripTrailing text = text := by
  rcases text.eq_nil_or_concat' with rfl | ⟨before, c, rfl⟩
  · rfl
  · rw [getLastD_concat] at last
    rw [stripTrailing, reverse_append, reverse_singleton, singleton_append,
      dropWhile_cons_of_neg (by simp [last]), reverse_cons, reverse_reverse]

/-- A text that does not begin with whitespace, up to the first stop. -/
theorem parseCommaString_eq {c : Char} (space : isSpace c = false)
    (read : untilStop isStop false (c :: text) = (word, rest))
    (last : isSpace (word.getLastD '\x00') = false) :
    parseCommaString (c :: text) = some (word, rest) := by
  have skipped : (c :: text).dropWhile (fun c => c ≠ '\n' && isSpace c) = c :: text :=
    dropWhile_cons_of_neg (by simp [space])
  unfold parseCommaString
  rw [if_neg (cons_ne_nil c text), skipped]
  dsimp only
  rw [read]
  rw [stripTrailing_of_last last]

/-- A text that is read as one part, whatever follows behind a comma. -/
structure OnePart (text : List Char) : Prop where
  first : ∃ c rest, text = c :: rest ∧ isSpace c = false
  unbroken : unbroken isStop false text = true
  last : isSpace (text.getLastD '\x00') = false

namespace OnePart

variable {text : List Char}

theorem parse_last (one : OnePart text) : parseCommaString text = some (text, []) := by
  obtain ⟨c, rest, rfl, space⟩ := one.first
  exact parseCommaString_eq space (untilStop_unbroken one.unbroken) one.last

theorem parse_comma (one : OnePart text) (more : List Char) :
    parseCommaString (text ++ ',' :: more) = some (text, more) := by
  obtain ⟨c, rest, rfl, space⟩ := one.first
  exact parseCommaString_eq space (untilStop_append one.unbroken rfl (by decide)) one.last

end OnePart

variable {d : Char} {text : List Char} {jobs : List JobId} {pd : Depend} {list : DependList}
  {fuel : Nat} {names : ServerNames} {more : DependList}

theorem getLastD_append_of_ne_nil {more : List Char} (nonempty : more ≠ []) :
    (text ++ more).getLastD d = more.getLastD d := by
  rcases more.eq_nil_or_concat' with rfl | ⟨before, c, rfl⟩
  · exact absurd rfl nonempty
  · rw [← append_assoc, getLastD_concat, getLastD_concat]

theorem getLastD_mem_of_ne_nil (nonempty : text ≠ []) : text.getLastD d ∈ text := by
  rcases text.eq_nil_or_concat' with rfl | ⟨before, c, rfl⟩
  · exact absurd rfl nonempty
  · rw [getLastD_concat]
    exact mem_append_right _ mem_cons_self

theorem getLastD_escape (sep : Char) (text : List Char) (d : Char) :
    (escape sep text).getLastD d = text.getLastD d := by
  induction text generalizing d with
  | nil => rfl
  | cons c text ih =>
    rw [escape]
    split <;> simp only [getLastD_cons, ih]

theorem isStop_isSpace_of_isDigit {c : Char} (digit : c.isDigit = true) :
    c ≠ '\\' ∧ isStop c = false := by
  constructor
  · rintro rfl
    exact absurd digit (by decide)
  · rw [Bool.eq_false_iff]
    intro stops
    simp only [isStop, Bool.or_eq_true, decide_eq_true_eq] at stops
    rcases stops with rfl | rfl <;> exact absurd digit (by decide)

theorem unbroken_jobs (tidy : ∀ child ∈ jobs, Tidy child) :
    unbroken isStop false (jobs.flatMap fun child => ':' :: catJobsvr child) = true := by
  induction jobs with
  | nil => rfl
  | cons child jobs ih =>
    have written : unbroken isStop false (catJobsvr child) = true :=
      unbroken_escape rfl (by decide) (tidy child mem_cons_self).unbroken
    rw [flatMap_cons, cons_append, unbroken, if_neg (by decide), unbroken_append written,
      ih (forall_mem_cons.1 tidy).2]
    rfl

theorem last_jobs (tidy : ∀ child ∈ jobs, Tidy child) (nonempty : jobs ≠ []) :
    isSpace ((jobs.flatMap fun child => ':' :: catJobsvr child).getLastD d) = false := by
  rcases jobs.eq_nil_or_concat' with rfl | ⟨before, child, rfl⟩
  · exact absurd rfl nonempty
  · have one := tidy child (mem_append_right _ mem_cons_self)
    obtain ⟨c, rest, equal⟩ := exists_cons_of_ne_nil one.nonempty
    have last := one.noSpace
    rw [flatMap_append, flatMap_singleton, getLastD_append_of_ne_nil (cons_ne_nil _ _),
      getLastD_cons, catJobsvr, getLastD_escape]
    rw [equal, getLastD_cons] at last ⊢
    exact last

/-- A dependency that is written is one part of the text. -/
theorem onePart_dependText (written : Written pd) : OnePart (dependText pd) := by
  have plain : unbroken isStop false pd.type.name = true :=
    unbroken_of_plain fun c mem =>
      ⟨(mem_name_plain pd.type c mem).1, (mem_name_plain pd.type c mem).2.2.1⟩
  constructor
  · obtain ⟨c, rest, equal⟩ := exists_cons_of_ne_nil (name_ne_nil pd.type)
    have space := (mem_name_plain pd.type c (equal ▸ mem_cons_self)).2.2.2
    exact ⟨c, _, by rw [dependText, equal, cons_append], space⟩
  · rw [dependText, unbroken_append plain]
    split
    · next count =>
      obtain ⟨-, nonneg, -⟩ := written.counts count
      rw [decimalInt, if_pos nonneg, unbroken, if_neg (by decide)]
      exact unbroken_of_plain fun c mem => isStop_isSpace_of_isDigit (isDigit_decimal mem)
    · exact unbroken_jobs written.tidy
  · rw [dependText]
    split
    · next count =>
      obtain ⟨-, nonneg, -⟩ := written.counts count
      rw [decimalInt, if_pos nonneg, getLastD_append_of_ne_nil (cons_ne_nil _ _), getLastD_cons]
      exact isSpace_of_isDigit (isDigit_decimal (getLastD_mem_of_ne_nil (decimal_ne_nil _)))
    · next count =>
      have nonempty := written.jobs_ne_nil (Bool.eq_false_iff.2 count)
      obtain ⟨child, jobs, split⟩ := exists_cons_of_ne_nil nonempty
      rw [getLastD_append_of_ne_nil (by rw [split]; exact cons_ne_nil _ _)]
      exact last_jobs written.tidy nonempty

/-- The dependencies that are written. -/
def entries (list : DependList) : DependList :=
  list.filter fun pd => !isSkipped pd

/-- The dependencies are read back one after the other. -/
def rereadAll (names : ServerNames) : DependList → DependList → Option DependList
  | [], list => some list
  | pd :: more, list =>
    if isRefused pd.type list || isUncounted pd then none
    else rereadAll names more (list ++ [reread names pd])

theorem encodeRest_cons_entry (written : isSkipped pd = false) :
    encodeRest (pd :: list) = ',' :: dependText pd ++ encodeRest list := by
  rw [encodeRest, flatMap_cons, written, if_neg Bool.false_ne_true]
  rfl

theorem encodeRest_entries (list : DependList) : encodeRest (entries list) = encodeRest list := by
  induction list with
  | nil => rfl
  | cons pd list ih =>
    cases skipped : isSkipped pd with
    | true =>
      have gone : entries (pd :: list) = entries list :=
        filter_cons_of_neg (by simp [skipped])
      rw [gone, ih, encodeRest, encodeRest, flatMap_cons, skipped, if_pos rfl, nil_append]
    | false =>
      have kept : entries (pd :: list) = pd :: entries list :=
        filter_cons_of_pos (by simp [skipped])
      rw [kept, encodeRest_cons_entry skipped, encodeRest_cons_entry skipped, ih]

section

variable (distinct : (list.map Depend.type ++ (pd :: more).map Depend.type).Nodup)
include distinct

theorem fresh_of_nodup : pd.type ∉ list.map Depend.type := fun mem =>
  (nodup_append.1 distinct).2.2 _ mem _ mem_cons_self rfl

theorem nodup_reread :
    ((list ++ [reread names pd]).map Depend.type ++ more.map Depend.type).Nodup := by
  rw [map_append, append_assoc]
  exact distinct

end

/-- A dependency is read from the front of the text. -/
theorem decodeParts_entry (written : Written pd) (fresh : pd.type ∉ list.map Depend.type)
    (parsed : parseCommaString text = some (dependText pd, rest)) (enough : text.length ≤ fuel) :
    decodeParts names fuel text list =
      if isRefused pd.type list || isUncounted pd then none
      else decodeParts names (fuel - 1) rest (list ++ [reread names pd]) := by
  have shorter := length_parseCommaString_lt parsed
  have nonempty : dependText pd ≠ [] := append_ne_nil_of_left_ne_nil (name_ne_nil pd.type) _
  obtain ⟨c, more, split⟩ := exists_cons_of_ne_nil nonempty
  obtain ⟨fuel, rfl⟩ : ∃ n, fuel = n + 1 := ⟨fuel - 1, by omega⟩
  rw [decodeParts, parsed, split]
  dsimp only
  rw [← split, buildDepend_dependText written fresh]
  split <;> rfl

/-- The text of dependencies that are all written is read part by part. -/
theorem decodeParts_text (written : ∀ other ∈ pd :: more, Written other)
    (distinct : (list.map Depend.type ++ (pd :: more).map Depend.type).Nodup)
    (enough : (dependText pd ++ encodeRest more).length ≤ fuel) :
    decodeParts names fuel (dependText pd ++ encodeRest more) list =
      rereadAll names (pd :: more) list := by
  induction more generalizing pd list fuel with
  | nil =>
    have first := written pd mem_cons_self
    have parsed : parseCommaString (dependText pd ++ encodeRest []) = some (dependText pd, []) := by
      rw [encodeRest, flatMap_nil, append_nil]
      exact (onePart_dependText first).parse_last
    rw [decodeParts_entry first (fresh_of_nodup distinct) parsed enough, decodeParts_nil]
    rfl
  | cons next more ih =>
    have first := written pd mem_cons_self
    have parsed : parseCommaString (dependText pd ++ encodeRest (next :: more)) =
        some (dependText pd, dependText next ++ encodeRest more) := by
      rw [encodeRest_cons_entry (written next (mem_cons_of_mem _ mem_cons_self)).unskipped,
        cons_append]
      exact (onePart_dependText first).parse_comma _
    have shorter := length_parseCommaString_lt parsed
    rw [decodeParts_entry first (fresh_of_nodup distinct) parsed enough,
      ih (forall_mem_cons.1 written).2 (nodup_reread distinct) (by omega)]
    rfl

/-! ## When all of it is read back -/

/-- A dependency on the order of jobs and `syncwith` refuse each other. -/
def clash (first second : DependType) : Bool :=
  (first = .syncWith && second.orders) || (second = .syncWith && first.orders)

theorem clash_eq_false_iff {first second : DependType} :
    clash first second = false ↔
      (first = .syncWith → second.orders = false) ∧
        (second = .syncWith → first.orders = false) := by
  simp [clash]

theorem clash_self (type : DependType) : clash type type = false := by
  cases type <;> rfl

/-- The types in the list that a type is refused for are the ones it clashes with: it is not
in the list itself. -/
theorem isRefused_eq_any (fresh : type ∉ list.map Depend.type) :
    isRefused type list = list.any fun pd => clash type pd.type := by
  have other : ∀ pd ∈ list, pd.type ≠ type := fun pd mem equal =>
    fresh (equal ▸ mem_map_of_mem mem)
  rw [Bool.eq_iff_iff, any_eq_true]
  cases type
  case syncWith =>
    rw [isRefused, any_eq_true]
    refine exists_congr fun pd => and_congr_right fun mem => ?_
    simp [clash, DependType.orders, other pd mem]
  case syncCt =>
    rw [isRefused, any_eq_true]
    refine exists_congr fun pd => and_congr_right fun mem => ?_
    simp [clash, DependType.orders, other pd mem]
  all_goals simp [isRefused, clash, DependType.orders]

theorem rereadAll_eq_some_iff {result : DependList}
    (distinct : (list.map Depend.type ++ more.map Depend.type).Nodup) :
    rereadAll names more list = some result ↔
      list ++ more.map (reread names) = result ∧
        (∀ pd ∈ more, isUncounted pd = false) ∧
        (∀ pd ∈ more, ∀ other ∈ list, clash pd.type other.type = false) ∧
        more.Pairwise fun pd other => clash other.type pd.type = false := by
  induction more generalizing list with
  | nil => simp [rereadAll]
  | cons pd more ih =>
    have refused : isRefused pd.type list = false ↔
        ∀ other ∈ list, clash pd.type other.type = false := by
      rw [isRefused_eq_any (fresh_of_nodup distinct), any_eq_false]
      simp only [Bool.not_eq_true]
    have sameType : (reread names pd).type = pd.type := rfl
    rw [rereadAll]
    split
    · next bad =>
      rw [Bool.or_eq_true] at bad
      constructor
      · exact nofun
      · rintro ⟨-, counted, apart, -⟩
        rcases bad with bad | bad
        · rw [refused.2 (apart pd mem_cons_self)] at bad
          exact absurd bad nofun
        · rw [counted pd mem_cons_self] at bad
          exact absurd bad nofun
    · next good =>
      rw [Bool.or_eq_true, not_or, Bool.not_eq_true, Bool.not_eq_true, refused] at good
      rw [ih (nodup_reread distinct), append_assoc, map_cons, singleton_append,
        pairwise_cons, forall_mem_cons, forall_mem_cons]
      simp only [mem_append, mem_singleton, or_imp, forall_and, forall_eq, sameType]
      tauto

/-- A list is written and read; what is not written is read as an empty list, and nothing is known
of what is written behind the buffer. -/
def cycle (names : ServerNames) (list : DependList) : Option DependList :=
  match encodeDepend list with
  | .nothing => some []
  | .text text => decodeDepend names text
  | .overrun => none

/-- Any number of cycles. -/
def cycles (names : ServerNames) : Nat → DependList → Option DependList
  | 0, list => some list
  | n + 1, list => (cycle names list).bind (cycles names n)

/-- However often a list is written and read, its dependencies come back, apart from those
that have no entries. -/
def RoundTrips (names : ServerNames) (list : DependList) : Prop :=
  ∀ n, ∃ back, cycles names n list = some back ∧ entries back = entries list

/-- When a list comes back. -/
structure Readable (names : ServerNames) (list : DependList) : Prop where
  /-- If the first dependency has no entries, no other has. -/
  first : (∀ pd, list.head? = some pd → isSkipped pd = true) → entries list = []
  /-- Every count was given. -/
  counts : ∀ pd ∈ list, pd.type.isCount = true → 1 ≤ pd.numexp
  /-- No `syncwith` stands next to a dependency on the order of jobs. -/
  compatible : ∀ pd ∈ entries list, ∀ other ∈ entries list,
    pd.type = .syncWith → other.type.orders = false
  /-- Every name is read as it was. -/
  names : ∀ pd ∈ list, ∀ child ∈ pd.jobs, KeptName names child
  /-- The buffer is large enough for what is written. -/
  fits : entries list ≠ [] → Fits list

theorem mem_entries : pd ∈ entries list ↔ pd ∈ list ∧ isSkipped pd = false := by
  rw [entries, mem_filter, Bool.not_eq_true']

@[simp]
theorem entries_entries (list : DependList) : entries (entries list) = entries list := by
  rw [entries, entries, filter_filter]
  simp

theorem all_isSkipped_iff : list.all isSkipped = true ↔ entries list = [] := by
  rw [all_eq_true, entries, filter_eq_nil_iff]
  simp

section

variable {names : ServerNames} {list : DependList} {pd : Depend}

theorem Sound.written (sound : Sound list) (tidy : TidyList list) (mem : pd ∈ entries list) :
    Written pd :=
  have ⟨listed, unskipped⟩ := mem_entries.1 mem
  ⟨sound.each pd listed, unskipped, tidy pd listed⟩

theorem Sound.entries (sound : Sound list) : Sound (entries list) where
  types := sound.types.sublist (filter_sublist.map _)
  each pd mem := sound.each pd (mem_entries.1 mem).1

/-- A list with no entries is not written at all. -/
theorem cycle_of_empty (empty : entries list = []) : cycle names list = some [] := by
  unfold cycle encodeDepend
  rw [if_pos (all_isSkipped_iff.2 empty)]

/-- A text that does not fit is not read back. -/
theorem cycle_of_overrun (written : entries list ≠ []) (long : ¬ Fits list) :
    cycle names list = none := by
  rw [cycle, encodeDepend, if_neg (mt all_isSkipped_iff.1 written), if_neg long]

/-- If the first dependency is not written, the text begins with a comma, and nothing is
read. -/
theorem cycle_of_skipped (skipped : isSkipped pd = true) (fits : Fits (pd :: list)) :
    cycle names (pd :: list) = some [] := by
  by_cases empty : entries (pd :: list) = []
  · exact cycle_of_empty empty
  · have later : entries list ≠ [] := by
      rwa [entries, filter_cons_of_neg (by simp [skipped])] at empty
    obtain ⟨next, more, split⟩ := exists_cons_of_ne_nil later
    have written : isSkipped next = false :=
      (mem_entries.1 (split ▸ mem_cons_self)).2
    have text : encodeRest list = ',' :: (dependText next ++ encodeRest more) := by
      rw [← encodeRest_entries, split, encodeRest_cons_entry written]
      rfl
    rw [cycle, encodeDepend, if_neg (by rwa [all_isSkipped_iff]), if_pos fits]
    dsimp only
    rw [encodeText, skipped, if_pos rfl, nil_append, text]
    rfl

/-- Otherwise the entries are read one after the other. -/
theorem cycle_of_written (sound : Sound (pd :: list)) (tidy : TidyList (pd :: list))
    (written : isSkipped pd = false) (fits : Fits (pd :: list)) :
    cycle names (pd :: list) = rereadAll names (entries (pd :: list)) [] := by
  have kept : entries (pd :: list) = pd :: entries list :=
    filter_cons_of_pos (by simp [written])
  have all : ∀ other ∈ entries (pd :: list), Written other := fun _ mem => sound.written tidy mem
  have types : (([] : DependList).map Depend.type ++
      (entries (pd :: list)).map Depend.type).Nodup := sound.entries.types
  rw [kept] at all types
  rw [cycle, encodeDepend, if_neg (by rw [all_isSkipped_iff, kept]; exact cons_ne_nil _ _),
    if_pos fits]
  dsimp only
  rw [encodeText, written, if_neg Bool.false_ne_true, ← encodeRest_entries, decodeDepend,
    decodeParts_text all types le_rfl, kept]

theorem isSkipped_eq_true_iff :
    isSkipped pd = true ↔ pd.type.isCount = false ∧ pd.jobs = [] := by
  rw [isSkipped, Bool.and_eq_true, Bool.not_eq_true', List.isEmpty_iff]

theorem isSkipped_reread (pd : Depend) : isSkipped (reread names pd) = isSkipped pd := by
  rw [isSkipped, isSkipped, reread, isEmpty_map]

theorem entries_map_reread (list : DependList) :
    entries ((entries list).map (reread names)) = (entries list).map (reread names) := by
  refine filter_eq_self.2 (forall_mem_map.2 fun pd entry => ?_)
  rw [isSkipped_reread, (mem_entries.1 entry).2]
  rfl

theorem map_eq_self_iff {α : Type*} {f : α → α} {xs : List α} :
    xs.map f = xs ↔ ∀ x ∈ xs, f x = x := by
  conv_lhs => rhs; rw [← map_id xs]
  exact map_inj_left

/-- What is asked of all dependencies need only be asked of those that are written. -/
theorem forall_entries_iff {P : Depend → Prop} (skipped : ∀ pd, isSkipped pd = true → P pd) :
    (∀ pd ∈ entries list, P pd) ↔ ∀ pd ∈ list, P pd := by
  refine ⟨fun all pd mem => ?_, fun all pd mem => all pd (mem_entries.1 mem).1⟩
  cases written : isSkipped pd with
  | true => exact skipped pd written
  | false => exact all pd (mem_entries.2 ⟨mem, written⟩)

theorem reread_entries_iff : (entries list).map (reread names) = entries list ↔
    ∀ pd ∈ list, ∀ child ∈ pd.jobs, KeptName names child := by
  have each : ∀ pd, reread names pd = pd ↔ ∀ child ∈ pd.jobs, KeptName names child := by
    intro pd
    simp only [← readBack_eq_iff, ← map_eq_self_iff]
    exact ⟨congrArg Depend.jobs, fun same => by rw [reread, same]⟩
  rw [map_eq_self_iff, forall_entries_iff]
  · simp only [each]
  · intro pd skipped
    rw [each, (isSkipped_eq_true_iff.1 skipped).2]
    exact nofun

theorem counted_entries_iff : (∀ pd ∈ entries list, isUncounted pd = false) ↔
    ∀ pd ∈ list, pd.type.isCount = true → 1 ≤ pd.numexp := by
  rw [forall_entries_iff]
  · simp [isUncounted]
  · intro pd skipped
    rw [isUncounted, (isSkipped_eq_true_iff.1 skipped).1, Bool.false_and]

theorem clash_entries_iff :
    (list.Pairwise fun pd other => clash other.type pd.type = false) ↔
      ∀ pd ∈ list, ∀ other ∈ list, pd.type = .syncWith → other.type.orders = false := by
  have symmetric : Std.Symm fun pd other : Depend => clash other.type pd.type = false :=
    ⟨fun _ _ free => clash_eq_false_iff.2 (clash_eq_false_iff.1 free).symm⟩
  constructor
  · intro apart pd mem other otherMem
    have clashes := apart.forall_of_forall (fun pd _ => clash_self pd.type) mem otherMem
    exact (clash_eq_false_iff.1 clashes).2
  · intro compatible
    apply pairwise_of_forall_mem_list
    intro first firstMem second secondMem
    exact clash_eq_false_iff.2
      ⟨compatible second secondMem first firstMem, compatible first firstMem second secondMem⟩

/-- Whether a list is readable depends on its entries, on the first one and on the buffer. -/
theorem readable_iff_entries : Readable names list ↔
    ((∀ pd, list.head? = some pd → isSkipped pd = true) → entries list = []) ∧
    (entries list).map (reread names) = entries list ∧
    (∀ pd ∈ entries list, isUncounted pd = false) ∧
    ((entries list).Pairwise fun pd other => clash other.type pd.type = false) ∧
    (entries list ≠ [] → Fits list) := by
  rw [reread_entries_iff, counted_entries_iff, clash_entries_iff]
  exact ⟨fun ⟨a, b, c, d, e⟩ => ⟨a, d, b, c, e⟩, fun ⟨a, d, b, c, e⟩ => ⟨a, b, c, d, e⟩⟩

/-- A list comes back once exactly if it is readable, and then without the dependencies that have no
entries. -/
theorem cycle_eq_some_iff (sound : Sound list) (tidy : TidyList list) {back : DependList} :
    cycle names list = some back ∧ entries back = entries list ↔
      Readable names list ∧ back = entries list := by
  by_cases empty : entries list = []
  · have readable : Readable names list := by simp [readable_iff_entries, empty]
    rw [cycle_of_empty empty, Option.some_inj, and_iff_right readable, empty]
    exact ⟨fun same => same.1.symm, fun same => by rw [same]; exact ⟨rfl, rfl⟩⟩
  by_cases fits : Fits list
  swap
  · rw [cycle_of_overrun empty fits]
    exact iff_of_false nofun fun readable => fits (readable.1.fits empty)
  cases list with
  | nil => exact absurd rfl empty
  | cons pd more =>
    cases written : isSkipped pd with
    | true =>
      rw [cycle_of_skipped written fits, Option.some_inj]
      refine iff_of_false ?_ fun readable => empty (readable.1.first ?_)
      · rintro ⟨rfl, same⟩
        exact empty same.symm
      · rintro _ ⟨⟩
        exact written
    | false =>
      have distinct : (([] : DependList).map Depend.type ++
          (entries (pd :: more)).map Depend.type).Nodup := sound.entries.types
      rw [cycle_of_written sound tidy written fits, rereadAll_eq_some_iff distinct, nil_append,
        readable_iff_entries]
      constructor
      · rintro ⟨⟨rfl, counted, -, apart⟩, same⟩
        rw [entries_map_reread] at same
        refine ⟨⟨fun skipped => ?_, same, counted, apart, fun _ => fits⟩, same⟩
        rw [skipped pd rfl] at written
        exact absurd written nofun
      · rintro ⟨⟨-, same, counted, apart, -⟩, rfl⟩
        exact ⟨⟨same, counted, fun _ _ _ => nofun, apart⟩, entries_entries _⟩

theorem Readable.entries (readable : Readable names list) (fits : Fits (entries list)) :
    Readable names (entries list) where
  first := by
    intro skipped
    cases kept : Dependency.entries list with
    | nil => rfl
    | cons pd more =>
      have written := (mem_entries.1 (kept ▸ mem_cons_self : pd ∈ Dependency.entries list)).2
      rw [kept] at skipped
      rw [skipped pd rfl] at written
      exact absurd written nofun
  counts := fun pd mem => readable.counts pd (mem_entries.1 mem).1
  compatible := by
    rw [entries_entries]
    exact readable.compatible
  names := fun pd mem => readable.names pd (mem_entries.1 mem).1
  fits := fun _ => fits

theorem TidyList.entries (tidy : TidyList list) : TidyList (entries list) :=
  fun pd mem => tidy pd (mem_entries.1 mem).1

/-- A list comes back from any number of cycles exactly if it is readable, and its entries still fit
the buffer when the dependencies without entries are gone. -/
theorem roundTrips_iff_readable (sound : Sound list) (tidy : TidyList list) :
    RoundTrips names list ↔ Readable names list ∧ Fits (entries list) := by
  constructor
  · intro trips
    -- the second cycle starts from the entries alone
    obtain ⟨back, read, same⟩ := trips 2
    obtain ⟨once, first, read⟩ := Option.bind_eq_some_iff.1 read
    obtain ⟨twice, second, last⟩ := Option.bind_eq_some_iff.1 read
    obtain rfl := Option.some.inj last
    obtain ⟨back, read, kept⟩ := trips 1
    obtain ⟨_, again, last⟩ := Option.bind_eq_some_iff.1 read
    obtain rfl := Option.some.inj last
    obtain rfl := Option.some.inj (first.symm.trans again)
    obtain ⟨readable, rfl⟩ := (cycle_eq_some_iff sound tidy).1 ⟨first, kept⟩
    refine ⟨readable, ?_⟩
    by_cases empty : Dependency.entries list = []
    · rw [empty]
      decide
    · have again := (cycle_eq_some_iff sound.entries tidy.entries).1
        ⟨second, same.trans (entries_entries list).symm⟩
      exact again.1.fits (by rwa [entries_entries])
  · rintro ⟨readable, fits⟩ n
    induction n generalizing list with
    | zero => exact ⟨list, rfl, rfl⟩
    | succ n ih =>
      obtain ⟨back, read, same⟩ := ih sound.entries tidy.entries (readable.entries fits)
        (by rwa [entries_entries])
      refine ⟨back, ?_, by rw [same, entries_entries]⟩
      rw [cycles, ((cycle_eq_some_iff sound tidy).2 ⟨readable, rfl⟩).1, Option.bind_some, read]

end

/-- A dependency list that is reached from an accepted text by registrations and their
removal, with names that end no part of the text: it comes back from any number of cycles
exactly if its first dependency has entries or no dependency has, every count was given,
no `syncwith` stands next to a dependency on the order of jobs, every name is one that
the reader keeps, and its text fits the buffer, with or without the dependencies that have no
entries. -/
theorem reached_roundTrips_iff (names : ServerNames) (val : List Char) (start : DependList)
    (requests : List DependRequest) (accepted : decodeDepend names val = some start)
    (tidy : TidyList (run (dependStep names) start requests)) :
    RoundTrips names (run (dependStep names) start requests) ↔
      Readable names (run (dependStep names) start requests) ∧
        Fits (entries (run (dependStep names) start requests)) := by
  have sound : Sound (run (dependStep names) start requests) :=
    run_invariant Sound (sound_nil.decodeParts accepted)
      (fun _ request sound => sound.dependStep request) requests
  exact roundTrips_iff_readable sound tidy

/-- A server that shows its name, and no alias. -/
def plainNames : ServerNames where
  serverName := "svr".toList
  jobSuffixAlias := none
  displayJobServerSuffix := true

theorem reached_roundTrips_iff_two :
    decodeDepend plainNames "afterok:1.svr:2,on:3".toList =
        some [⟨.afterOk, 0, ["1.svr".toList, "2.svr".toList]⟩, ⟨.on, 3, []⟩] ∧
      RoundTrips plainNames (run (dependStep plainNames)
        [⟨.afterOk, 0, ["1.svr".toList, "2.svr".toList]⟩, ⟨.on, 3, []⟩]
        [.register .afterAny "7.svr".toList, .unregister .beforeOk "1.svr".toList]) := by
  have accepted : decodeDepend plainNames "afterok:1.svr:2,on:3".toList =
      some [⟨.afterOk, 0, ["1.svr".toList, "2.svr".toList]⟩, ⟨.on, 3, []⟩] := by decide +kernel
  refine ⟨accepted, (reached_roundTrips_iff plainNames _ _ _ accepted (by decide +kernel)).2
    ⟨⟨fun skipped => ?_, ?_, ?_, ?_, ?_⟩, ?_⟩⟩
  · exact absurd (skipped _ rfl) (by decide +kernel)
  all_goals decide +kernel

/-- When the only job of the first dependency is unregistered, the text begins with a comma
and the other dependency is lost. -/
theorem leading_comma_loses_list :
    ¬ ∀ (names : ServerNames) (val : List Char) (start : DependList)
      (requests : List DependRequest), decodeDepend names val = some start →
      RoundTrips names (run (dependStep names) start requests) := by
  intro trips
  have lost := trips plainNames "afterok:1.svr,afterany:2.svr".toList
    [⟨.afterOk, 0, ["1.svr".toList]⟩, ⟨.afterAny, 0, ["2.svr".toList]⟩]
    [.unregister .beforeOk "1.svr".toList] (by decide +kernel) 1
  obtain ⟨back, read, same⟩ := lost
  have nothing : cycles plainNames 1 (run (dependStep plainNames)
      [⟨.afterOk, 0, ["1.svr".toList]⟩, ⟨.afterAny, 0, ["2.svr".toList]⟩]
      [.unregister .beforeOk "1.svr".toList]) = some [] := by decide +kernel
  obtain rfl := Option.some.inj (nothing.symm.trans read)
  exact absurd same (by decide +kernel)

end Torque.Dependency
