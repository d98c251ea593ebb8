import Mathlib

/-!
# A record in a file that is overwritten in place

A write truncates the file and puts the record there from its start; it can stop anywhere.  A read
takes what it gets of the file, and accepts it when it has the length of a record.

* `Extent` — how far an operation gets; `write`, `read`, `writeAll`.
* `held` — the record that a read can return; `Overwritten` — what overwriting does to it: it is
  kept, replaced or lost.
* `held_write` — one write; `held_writeAll` — **after any writes, wherever they stop, only the
  record of the last write that opened the file can be read** (`survivor`).
-/

set_option autoImplicit false

namespace CutWrite

variable {α : Type} {n : Nat} {record : List α} {file : Option (List α)}

/-- The file is not opened, or so many elements are transferred. -/
inductive Extent where
  | unopened
  | upTo (count : Nat)
  deriving DecidableEq

def write (extent : Extent) (record : List α) (file : Option (List α)) : Option (List α) :=
  match extent with
  | .unopened => file
  | .upTo count => some (record.take count)

/-- A record has `n` elements. -/
def read (n : Nat) (extent : Extent) (file : Option (List α)) : Option (List α) :=
  match extent, file with
  | .upTo count, some content =>
    if (content.take count).length = n then some (content.take count) else none
  | _, _ => none

/-- The record that some read can return. -/
def held (n : Nat) (file : Option (List α)) : Option (List α) :=
  file.bind fun content => if n ≤ content.length then some (content.take n) else none

/-- What becomes of the record in a file that is overwritten by another. -/
inductive Overwritten (record : List α) (before : Option (List α)) : Option (List α) → Prop
  | kept : Overwritten record before before
  | replaced : Overwritten record before (some record)
  | lost : Overwritten record before none

theorem held_of_length (h : record.length = n) : held n (some record) = some record := by
  rw [held, Option.bind_some, if_pos (Nat.le_of_eq h.symm), List.take_of_length_le (Nat.le_of_eq h)]

/-- A record that is not there in full is not held. -/
theorem held_take {count : Nat} (h : record.length = n) :
    held n (some (record.take count)) = if n ≤ count then some record else none := by
  split
  · rename_i hall
    rw [List.take_of_length_le (by omega)]
    exact held_of_length h
  · rename_i hcut
    rw [held, Option.bind_some, if_neg]
    rw [List.length_take]
    omega

/-- What is read is held. -/
theorem held_of_read {extent : Extent} (h : read n extent file = some record) :
    held n file = some record := by
  unfold read at h
  split at h
  · rename_i count content
    split at h
    · rename_i hlength
      cases h
      rw [List.length_take] at hlength
      rw [held, Option.bind_some, if_pos (by omega)]
      congr 1
      rw [List.take_eq_take_iff]
      omega
    · cases h
  · cases h

/-- **One write**: the record stays, is replaced as a whole, or is lost. -/
theorem held_write (extent : Extent) (h : record.length = n) :
    Overwritten record (held n file) (held n (write extent record file)) := by
  cases extent with
  | unopened => exact .kept
  | upTo count =>
    rw [write, held_take h]
    split
    · exact .replaced
    · exact .lost

/-- Any number of writes, one after the other. -/
def writeAll (writes : List (Extent × List α)) (file : Option (List α)) : Option (List α) :=
  writes.foldl (fun file w => write w.1 w.2 file) file

/-- The last write that opens the file, if one does. -/
def lastOpened (writes : List (Extent × List α)) : Option (Extent × List α) :=
  writes.reverse.find? fun w => decide (w.1 ≠ .unopened)

/-- The record of the last write that opens the file, if it gets to its end; the one of the file,
    if no write opens it. -/
def survivor (n : Nat) (writes : List (Extent × List α)) (file : Option (List α)) :
    Option (List α) :=
  match lastOpened writes with
  | some (.upTo count, record) => if n ≤ count then some record else none
  | _ => held n file

theorem writeAll_append (writes : List (Extent × List α)) (w : Extent × List α) :
    writeAll (writes ++ [w]) file = write w.1 w.2 (writeAll writes file) := by
  rw [writeAll, List.foldl_append]
  rfl

theorem lastOpened_append (writes : List (Extent × List α)) (w : Extent × List α) :
    lastOpened (writes ++ [w]) = if w.1 = .unopened then lastOpened writes else some w := by
  rw [lastOpened, List.reverse_append, List.reverse_singleton, List.singleton_append,
    List.find?_cons]
  by_cases hw : w.1 = .unopened
  · simp [hw, lastOpened]
  · simp [hw]

/-- **Any writes**: what the file holds afterwards is what survives them. -/
theorem held_writeAll {writes : List (Extent × List α)} (h : ∀ w ∈ writes, w.2.length = n) :
    held n (writeAll writes file) = survivor n writes file := by
  unfold survivor
  induction writes using List.reverseRecOn with
  | nil => rfl
  | append_singleton writes w ih =>
    obtain ⟨extent, record⟩ := w
    have hrecord : record.length = n := h _ (List.mem_append_right _ List.mem_cons_self)
    rw [writeAll_append, lastOpened_append]
    cases extent with
    | unopened =>
      rw [if_pos rfl]
      exact ih fun w hw => h w (List.mem_append_left _ hw)
    | upTo count =>
      rw [if_neg (by simp)]
      exact held_take hrecord

/-- No write makes the file longer than a record. -/
theorem writeAll_length {writes : List (Extent × List α)} (h : ∀ w ∈ writes, w.2.length = n)
    (hfile : ∀ content, file = some content → content.length ≤ n) :
    ∀ content, writeAll writes file = some content → content.length ≤ n := by
  induction writes using List.reverseRecOn with
  | nil => exact hfile
  | append_singleton writes w ih =>
    obtain ⟨extent, record⟩ := w
    have hrecord : record.length = n := h _ (List.mem_append_right _ List.mem_cons_self)
    have ih := ih fun w hw => h w (List.mem_append_left _ hw)
    intro content hcontent
    rw [writeAll_append] at hcontent
    cases extent with
    | unopened => exact ih content hcontent
    | upTo count =>
      cases hcontent
      exact Nat.le_trans (List.length_take_le' count record) (Nat.le_of_eq hrecord)

/-- A file that is no longer than a record is read as what it holds. -/
theorem read_held {count : Nat} (hfile : ∀ content, file = some content → content.length ≤ n)
    (hcount : n ≤ count) : read n (.upTo count) file = held n file := by
  cases file with
  | none => rfl
  | some content =>
    have hlength := hfile content rfl
    have hall : content.take count = content := List.take_of_length_le (by omega)
    have hall' : content.take n = content := List.take_of_length_le hlength
    rw [read, held, Option.bind_some, hall, hall']
    by_cases h : content.length = n
    · rw [if_pos h, if_pos (Nat.le_of_eq h.symm)]
    · rw [if_neg h, if_neg (by omega)]

end CutWrite
