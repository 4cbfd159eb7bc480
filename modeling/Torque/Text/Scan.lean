import Mathlib.Data.List.Basic

/-!
# Scanning C strings

Characters up to the terminator are a list.  `tokens` is the sequence of tokens
a caller of a `strtok`-like tokenizer sees when empty tokens are kept and the
end of the text does not start another one, and `leadingNumber` is the number that
the digits at the beginning of a text denote.
-/

namespace Torque.Text

open List

/-- The tokens of a text: empty ones are kept, except behind the last
delimiter. -/
def tokens (delimiter : Char → Bool) (text : List Char) : List (List Char) :=
  let parts := text.splitOnP delimiter
  if parts.getLast? = some [] then parts.dropLast else parts

/-- The parts of a list contain no delimiter. -/
theorem not_mem_of_mem_splitOn {α : Type*} [BEq α] [LawfulBEq α] {delimiter : α}
    {text part : List α} (mem : part ∈ text.splitOn delimiter) : delimiter ∉ part := by
  induction length : text.length using Nat.strongRecOn generalizing text with
  | ind n ih =>
    by_cases held : delimiter ∈ text
    · obtain ⟨front, back, rfl, clean⟩ := eq_append_cons_of_mem held
      rw [splitOn_append_cons_self_of_not_mem clean] at mem
      rcases mem_cons.mp mem with rfl | later
      · exact clean
      · rw [length_append, length_cons] at length
        exact ih back.length (by omega) later rfl
    · rw [splitOn_eq_singleton held] at mem
      rw [mem_singleton.mp mem]
      exact held

/-- The number that a string of digits denotes. -/
def digitsValue (digits : List Char) : Nat :=
  digits.foldl (fun value digit => 10 * value + (digit.toNat - '0'.toNat)) 0

/-- The leading digits of a text, as a number. -/
def leadingNumber (text : List Char) : Nat :=
  digitsValue (text.takeWhile Char.isDigit)

example : tokens (· == ',') "1,,3-5,".toList = ["1".toList, [], "3-5".toList] := by decide

end Torque.Text
