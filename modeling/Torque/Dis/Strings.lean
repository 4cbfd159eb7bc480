import Torque.Dis.Svrattrl
import Torque.Dis.Writer

/-!
# Writing strings, and reading back

`diswcs` writes the number of characters and then the characters.  The number is an `unsigned int`,
which is not enough for a string of four gigabytes.

What the writers write is read back by the readers, whatever follows it.  This is said once, by
`Reads`, and composed for sequences and for lists with a count in front.
-/

namespace Torque.Dis

open List

/-! ## The writers -/

/-- A string as C has it: the bytes in front of the terminator. -/
abbrev CString := { bytes : List UInt8 // 0 ∉ bytes }

/-- `diswcs`: what it hands to `tcp_puts`. -/
def diswcs (value : List UInt8) : List UInt8 :=
  diswui (.ofNat value.length) ++ value

/-- `diswst`. -/
def diswst (value : CString) : List UInt8 :=
  diswcs value.1

/-! ## Reading back -/

/-- From the last commit on the reader reads just these bytes, and gets this value from them. -/
def Reads {α : Type} (reader : Reader α) (bytes : List UInt8) (value : α) : Prop :=
  ∀ continuation ended, reader ⟨[], bytes ++ continuation, ended⟩ =
    (.ok value, ⟨[], continuation, ended⟩)

namespace Reads

variable {α β : Type} {reader : Reader α} {next : α → Reader β} {bytes more : List UInt8}
  {value : α} {result : β}

theorem pure (value : α) : Reads (Pure.pure value) [] value :=
  fun _ _ => rfl

variable (first : Reads reader bytes value)
include first

theorem bind (second : Reads (next value) more result) :
    Reads (reader >>= next) (bytes ++ more) result := by
  intro continuation ended
  rw [append_assoc]
  exact Reader.bind_eq_ok_iff.mpr ⟨_, _, first _ ended, second continuation ended⟩

theorem bind_pure (last : next value = Pure.pure result) :
    Reads (reader >>= next) bytes result := by
  have second : Reads (next value) [] result := by
    rw [last]
    exact pure result
  have both := first.bind second
  rwa [append_nil] at both

end Reads

theorem reads_disrui (value : UInt32) : Reads disrui (diswui value) value.toNat :=
  fun continuation ended => disrui_diswui [] continuation ended value

theorem reads_disrsi (value : Int32) : Reads disrsi (diswsi value) value :=
  fun continuation ended => disrsi_diswsi [] continuation ended value

section

variable {value : List UInt8}

theorem storeString_append {nullstr : Bool} {initial : List UInt8}
    (clean : nullstr = true → 0 ∉ value) (pending continuation : List UInt8) (ended : StreamEnd) :
    storeString nullstr initial ⟨pending, value ++ continuation, ended⟩ value.length =
      (.ok value, ⟨[], continuation, ended⟩) := by
  have got : tcpGets ⟨pending, value ++ continuation, ended⟩ value.length =
      .ok (value, ⟨pending ++ value, continuation, ended⟩) :=
    tcpGets_eq_ok_iff_advances.mpr ⟨rfl, rfl, rfl, rfl⟩
  unfold storeString getString
  rw [got]
  dsimp only
  rw [if_neg fun both => clean both.1 both.2]
  rfl

theorem disrsi_diswcs (short : value.length < 2 ^ 32) (continuation : List UInt8)
    (ended : StreamEnd) :
    ∃ item, disrsi_ ⟨[], diswcs value ++ continuation, ended⟩ 1 =
      ⟨.success, false, value.length, ⟨item, value ++ continuation, ended⟩⟩ := by
  unfold diswcs diswui
  rw [UInt32.toNat_ofNat_of_lt' short, append_assoc]
  exact disrsi_printInteger [] (value ++ continuation) ended (.inl rfl) short

variable (platform : Platform) {achars : Nat}

section

variable (allocates : ∀ size, platform.calloc size = true) (short : value.length < 2 ^ 32)
include allocates short

theorem reads_disrst (clean : 0 ∉ value) : Reads (disrst platform) (diswcs value) value := by
  intro continuation ended
  rcases disrsi_diswcs short continuation ended with ⟨item, read⟩
  simp only [disrst, read, allocates, ne_eq, not_true_eq_false, if_false, Bool.false_eq_true,
    Bool.true_eq_false]
  exact storeString_append (fun _ => clean) item continuation ended

theorem reads_disrcs : Reads (disrcs platform) (diswcs value) value := by
  intro continuation ended
  rcases disrsi_diswcs short continuation ended with ⟨item, read⟩
  simp only [disrcs, read, allocates, ne_eq, not_true_eq_false, if_false, Bool.false_eq_true,
    Bool.true_eq_false, true_or, if_true]
  exact storeString_append (fun null => absurd null Bool.false_ne_true) item continuation ended

end

variable (short : value.length < 2 ^ 32) (fits : value.length ≤ achars)
include short fits

theorem reads_disrfst (clean : 0 ∉ value) :
    Reads (disrfst platform achars) (diswcs value) value := by
  intro continuation ended
  rcases disrsi_diswcs short continuation ended with ⟨item, read⟩
  simp only [disrfst, read, ne_eq, not_true_eq_false, if_false, Bool.false_eq_true, gt_iff_lt,
    Nat.not_lt.mpr fits]
  exact storeString_append (fun _ => clean) item continuation ended

theorem reads_disrfcs : Reads (disrfcs achars) (diswcs value) value := by
  intro continuation ended
  rcases disrsi_diswcs short continuation ended with ⟨item, read⟩
  simp only [disrfcs_eq, read, ne_eq, not_true_eq_false, if_false, Bool.false_eq_true, gt_iff_lt,
    Nat.not_lt.mpr fits]
  exact storeString_append (fun null => absurd null Bool.false_ne_true) item continuation ended

end

/-! ## Lists -/

/-- What the loop of a decoder leaves behind: the items that it read before one that it could not
read stay where they are. -/
structure ItemsRead (α : Type) where
  code : Except DisCode Unit
  items : List α
  chan : TcpChan

/-- A loop that reads one item after the other. -/
def readItems {α : Type} (reader : Reader α) : Nat → TcpChan → ItemsRead α
  | 0, chan => ⟨.ok (), [], chan⟩
  | count + 1, chan =>
    match reader chan with
    | (.error code, chan) => ⟨.error code, [], chan⟩
    | (.ok item, chan) =>
      let later := readItems reader count chan
      ⟨later.code, item :: later.items, later.chan⟩

/-- The loop behind the count of the items. -/
def readCounted {α : Type} (reader : Reader α) (chan : TcpChan) : ItemsRead α :=
  match disrui chan with
  | (.error code, chan) => ⟨.error code, [], chan⟩
  | (.ok count, chan) => readItems reader count chan

theorem readCounted_append {α : Type} (reader : Reader α) (count : UInt32)
    (bytes continuation : List UInt8) (ended : StreamEnd) :
    readCounted reader ⟨[], diswui count ++ bytes ++ continuation, ended⟩ =
      readItems reader count.toNat ⟨[], bytes ++ continuation, ended⟩ := by
  rw [readCounted, append_assoc, reads_disrui]

section

variable {α β : Type} {reader : Reader α} {write : β → List UInt8} {shown : β → α} {chan : TcpChan}
  {count : Nat}

/-- Items that are read back one by one are read back by the loop. -/
theorem readItems_flatMap {items : List β}
    (reads : ∀ item ∈ items, Reads reader (write item) (shown item)) (continuation : List UInt8)
    (ended : StreamEnd) :
    readItems reader items.length ⟨[], items.flatMap write ++ continuation, ended⟩ =
      ⟨.ok (), items.map shown, ⟨[], continuation, ended⟩⟩ := by
  induction items with
  | nil => rfl
  | cons item items ih =>
    have first := reads item mem_cons_self
      (items.flatMap write ++ continuation) ended
    have later := ih (forall_mem_cons.1 reads).2
    rw [flatMap_cons, append_assoc, length_cons, readItems, first]
    dsimp only
    rw [later]
    rfl

/-- A loop succeeds if it has read all items. -/
theorem code_of_length_items (all : count ≤ (readItems reader count chan).items.length) :
    (readItems reader count chan).code = .ok () := by
  induction count generalizing chan with
  | zero => rfl
  | succ count ih =>
    rw [readItems] at all ⊢
    split
    · next code next read =>
      rw [read] at all
      exact absurd all (Nat.not_succ_le_zero count)
    · next item next read =>
      rw [read] at all
      exact ih (Nat.le_of_succ_le_succ all)

/-- A loop that succeeds has read all items. -/
theorem length_items_of_readItems (success : (readItems reader count chan).code = .ok ()) :
    (readItems reader count chan).items.length = count := by
  induction count generalizing chan with
  | zero => rfl
  | succ count ih =>
    rw [readItems] at success ⊢
    split at success
    · cases success
    · next item next read =>
      rw [length_cons, ih success]

theorem readItems_succ (success : (readItems reader (count + 1) chan).code = .ok ()) :
    ∃ item next, reader chan = (.ok item, next) ∧
      (readItems reader (count + 1) chan).items = item :: (readItems reader count next).items := by
  rw [readItems] at success ⊢
  split at success
  · cases success
  · next item next read => exact ⟨item, next, read, rfl⟩

end

end Torque.Dis
