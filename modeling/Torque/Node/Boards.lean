import Mathlib.Algebra.BigOperators.Group.List.Basic
import Mathlib.Algebra.Order.Ring.Int
import Torque.Text.Decimal

/-!
# The boards of a node

`setup_node_boards` creates the NUMA boards of a node.  The slots of each come from the next
number of the numa string, or are the slots of the node divided by the number of boards.  For the
GPUs the test of the string is the wrong way round: without a string no board gets any, and with
one the GPUs of the node are divided.
-/

namespace Torque.Node.Boards

open Torque.Text List

/-- The number that was read last, and the string behind it if there is one. -/
structure Cursor where
  val : Int
  str : Option (List Char)

/-- Where the next number begins; the last one is read again and again. -/
def behindComma (str : List Char) : List Char :=
  if ',' ∈ str then (str.dropWhile (· ≠ ',')).tail else str

/-- `read_val_and_advance`, which needs a string. -/
def Cursor.readValAndAdvance (cursor : Cursor) : Cursor :=
  match cursor.str with
  | none => cursor
  | some str => ⟨atoi str, some (behindComma str)⟩

/-- What a board is created with. -/
structure Board where
  slots : Nat
  gpus : Nat
deriving DecidableEq

/-- The loop of `setup_node_boards` over `n` boards from `i` on; `creates` says which of them can
be created. -/
def boardLoop (creates : Nat → Bool) : Nat → Nat → Cursor → Cursor → Option (List Board)
  | 0, _, _, _ => some []
  | n + 1, i, np, gpus =>
    if creates i then
      let np := np.readValAndAdvance
      (boardLoop creates n (i + 1) np gpus.readValAndAdvance).map
        (⟨np.val.toNat, gpus.val.toNat⟩ :: ·)
    else none

/-- `setup_node_boards` for a node with boards: the list of the boards in the order of their
numbers. -/
def setupNodeBoards (numNodeBoards totalSlots ngpus : Nat) (numaStr gpuStr : List Char)
    (creates : Nat → Bool) : Option (List Board) :=
  let np : Cursor :=
    if numaStr = [] then ⟨(totalSlots / numNodeBoards : Nat), none⟩ else ⟨0, some numaStr⟩
  let gpus : Cursor :=
    if gpuStr = [] then Cursor.readValAndAdvance ⟨0, some gpuStr⟩
    else ⟨(ngpus / numNodeBoards : Nat), none⟩
  boardLoop creates numNodeBoards 0 np gpus

/-- The numbers of a string. -/
def numbers (str : List Char) : List Int :=
  (str.splitOn ',').map numberOf

/-- The boards have the first numbers of the string, or without a string all that the node has. -/
def Shares (boards : List Nat) (str : List Char) (total : Nat) : Prop :=
  if str = [] then boards.sum = total
  else boards.map Int.ofNat = (numbers str).take boards.length
deriving Decidable

/-- The boards are numbered from 0 and have their shares. -/
def Right (b total ngpus : Nat) (numaStr gpuStr : List Char) (boards : List Board) : Prop :=
  boards.length = b ∧ Shares (boards.map Board.slots) numaStr total ∧
    Shares (boards.map Board.gpus) gpuStr ngpus
deriving Decidable

theorem leadingNumber_comma (text rest : List Char) :
    leadingNumber (text ++ ',' :: rest) = leadingNumber text := by
  unfold leadingNumber
  rw [takeWhile_append]
  split
  next all =>
    rw [takeWhile_cons_of_neg (by decide), append_nil]
    exact congrArg digitsValue (( takeWhile_prefix _).eq_of_length all).symm
  · rfl

theorem numberOf_comma (text rest : List Char) :
    numberOf (text ++ ',' :: rest) = numberOf text := by
  have start : (text ++ ',' :: rest).dropWhile isSpace =
      text.dropWhile isSpace ++ ',' :: rest := by
    rw [dropWhile_append]
    split
    next none_ =>
      rw [isEmpty_iff.mp none_]
      rfl
    · rfl
  unfold numberOf
  rw [start]
  generalize text.dropWhile isSpace = text
  have same := leadingNumber_comma text rest
  cases text with
  | nil => exact congrArg Int.ofNat same
  | cons c text =>
    have behind := leadingNumber_comma text rest
    simp only [cons_append] at same ⊢
    split <;> simp_all

/-- What a string begins with, and where it goes on. -/
theorem numbers_eq (str : List Char) :
    ∃ rest, numbers str = numberOf str :: rest ∧
      (rest ≠ [] → numbers (behindComma str) = rest) := by
  by_cases comma : ',' ∈ str
  · obtain ⟨front, back, rfl, clean⟩ := eq_append_cons_of_mem comma
    refine ⟨numbers back, ?_, fun _ => ?_⟩
    · rw [numbers, splitOn_append_cons_self_of_not_mem clean, map_cons, numberOf_comma]
      rfl
    · have passed : (front ++ ',' :: back).dropWhile (· ≠ ',') = ',' :: back := by
        rw [dropWhile_append_of_pos]
        · simp
        · intro c mem
          simpa using ne_of_mem_of_not_mem mem clean
      rw [behindComma, if_pos comma, passed, tail_cons]
  · refine ⟨[], ?_, fun some => absurd rfl some⟩
    rw [numbers, splitOn_eq_singleton comma]
    rfl

theorem val_of_numbers {str : List Char} {i : Nat} {n : Int} (val : Int)
    (found : (numbers str)[i]? = some n) :
    (Cursor.readValAndAdvance^[i + 1] ⟨val, some str⟩).val = narrowed n := by
  obtain ⟨rest, first, later⟩ := numbers_eq str
  induction i generalizing str val rest with
  | zero =>
    rw [first] at found
    rw [← Option.some.inj found]
    exact atoi_eq str
  | succ i ih =>
    rw [first, getElem?_cons_succ] at found
    have more : rest ≠ [] := by
      rintro rfl
      cases found
    obtain ⟨rest', first', later'⟩ := numbers_eq (behindComma str)
    exact ih (atoi str) (later more ▸ found) rest' first' later'

/-- All boards, if they can be created. -/
theorem boardLoop_eq {creates : Nat → Bool} {n i : Nat} {np gpus : Cursor} {boards : List Board}
    (created : boardLoop creates n i np gpus = some boards) :
    boards = (range n).map fun k => ⟨(Cursor.readValAndAdvance^[k + 1] np).val.toNat,
      (Cursor.readValAndAdvance^[k] gpus).val.toNat⟩ := by
  induction n generalizing i np gpus boards with
  | zero => exact (Option.some.inj created).symm
  | succ n ih =>
    unfold boardLoop at created
    split at created
    · obtain ⟨rest, later, rfl⟩ := Option.map_eq_some_iff.mp created
      rw [ih later, range_succ_eq_map, map_cons, map_map]
      rfl
    · cases created

theorem map_val {str : List Char} {b : Nat} (enough : b ≤ (numbers str).length) :
    (range b).map (fun k => (Cursor.readValAndAdvance^[k + 1] ⟨0, some str⟩).val) =
      ((numbers str).take b).map narrowed := by
  apply ext_getElem (by simp [enough])
  intro k inside _
  rw [getElem_map, getElem_range, getElem_map, getElem_take]
  exact val_of_numbers 0 (getElem?_eq_getElem _)

/-- The boards get the first numbers if there are enough, and each is an `int` and not
negative. -/
theorem slots_eq_iff {str : List Char} {b : Nat} :
    (range b).map (fun k =>
        ((Cursor.readValAndAdvance^[k + 1] ⟨0, some str⟩).val.toNat : Int)) =
        (numbers str).take b ↔
      b ≤ (numbers str).length ∧ ∀ n ∈ (numbers str).take b, 0 ≤ n ∧ n < 2 ^ 31 := by
  have read (enough : b ≤ (numbers str).length) :
      (range b).map (fun k =>
        ((Cursor.readValAndAdvance^[k + 1] ⟨0, some str⟩).val.toNat : Int)) =
      ((numbers str).take b).map fun n => ((narrowed n).toNat : Int) := by
    have values := congrArg (map fun n : Int => (n.toNat : Int)) (map_val enough)
    rwa [map_map, map_map] at values
  constructor
  · intro equal
    have length := congrArg length equal
    rw [length_map, length_range, length_take] at length
    refine ⟨by omega, fun n mem => toNat_narrowed_iff.mp ?_⟩
    rw [read (by omega)] at equal
    exact map_inj_left.mp (equal.trans (map_id _).symm) n mem
  · rintro ⟨enough, small⟩
    rw [read enough]
    exact (map_congr_left fun n mem => toNat_narrowed_iff.mpr (small n mem)).trans (map_id _)

/-- The boards are right iff the slots can be divided evenly, or there is a number for each board
that is an `int` and not negative; and there are no GPUs, or the string divides them evenly. -/
theorem setupNodeBoards_right_iff {b total ngpus : Nat} {numaStr gpuStr : List Char}
    {creates : Nat → Bool} {boards : List Board}
    (created : setupNodeBoards b total ngpus numaStr gpuStr creates = some boards) :
    Right b total ngpus numaStr gpuStr boards ↔
      (if numaStr = [] then b ∣ total
        else b ≤ (numbers numaStr).length ∧
          ∀ n ∈ (numbers numaStr).take b, 0 ≤ n ∧ n < 2 ^ 31) ∧
      if gpuStr = [] then ngpus = 0
      else (numbers gpuStr).take b = replicate b ((ngpus / b : Nat) : Int) := by
  rw [Right, boardLoop_eq created, map_map, map_map, length_map, length_range, and_iff_right rfl]
  -- a cursor without a string, or at the end of an empty one, stands still
  have bare : ∀ (n : Int) (k : Nat), Cursor.readValAndAdvance^[k] ⟨n, none⟩ = ⟨n, none⟩ :=
    fun n => Function.iterate_fixed rfl
  have spent : ∀ k, Cursor.readValAndAdvance^[k] (.readValAndAdvance ⟨0, some []⟩) =
      ⟨0, some []⟩ :=
    Function.iterate_fixed rfl
  simp only [Shares, length_map, length_range, Function.comp_def]
  refine and_congr ?_ ?_
  · split
    · simp only [bare, Int.toNat_natCast, map_const', length_range, sum_replicate_nat]
      exact ⟨fun whole => ⟨_, whole.symm⟩, Nat.mul_div_cancel'⟩
    · rw [map_map]
      exact slots_eq_iff
  · split
    next empty => simp [empty, spent, eq_comm]
    · simp only [bare, Int.toNat_natCast, map_const', length_range, map_replicate]
      exact eq_comm

theorem setupNodeBoards_right_two :
    let boards := [⟨3, 1⟩, ⟨4, 1⟩]
    setupNodeBoards 2 8 2 "3,4".toList "1,1".toList (fun _ => true) = some boards ∧
      Right 2 8 2 "3,4".toList "1,1".toList boards := by
  intro boards
  have created : setupNodeBoards 2 8 2 "3,4".toList "1,1".toList (fun _ => true) = some boards := by
    decide
  exact ⟨created, (setupNodeBoards_right_iff created).mpr (by decide)⟩

/-- Two boards and the string `1,1`: no board gets a GPU. -/
theorem gpus_of_boards_lost :
    ¬ ∀ b total ngpus numaStr gpuStr creates boards, 0 < b →
      setupNodeBoards b total ngpus numaStr gpuStr creates = some boards →
      Right b total ngpus numaStr gpuStr boards := by
  intro always
  exact absurd (always 2 0 0 [] "1,1".toList (fun _ => true) _ (by decide) rfl) (by decide)

end Torque.Node.Boards
