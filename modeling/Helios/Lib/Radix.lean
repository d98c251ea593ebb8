import Mathlib

/-!
# Numbers in a base

* `ofDigits` — the number of a list of digits.
* `parse` — reads one with checked arithmetic, like the parsers of unsigned machine words; `value`
  is how the base reads a character.
* `parseDigits_eq_some_iff` — **what the loop reads is the number of the digits, below the bound**.
* `Spells`, `parse_eq_some_iff` — **what is read is what is spelled**, perhaps behind a plus sign.
* `toDigits_ofDigits`, `toDigits_dropWhile` — digits that do not start with a zero are the ones their
  number is printed with; the zeros in front of others can be dropped.
* `parse_toDigits` — **what is printed is read back**.
-/

set_option autoImplicit false

namespace Radix

variable {b : Nat} {value : Char → Option (Fin b)} {bound n read : Nat}

/-- The number of a list of digits, behind those already read. -/
def ofDigits (read : Nat) : List (Fin b) → Nat
  | [] => read
  | d :: ds => ofDigits (read * b + d.val) ds

/-- The loop of the parser; none for a character that is no digit, and on overflow. -/
def parseDigits (value : Char → Option (Fin b)) (bound : Nat) : Nat → List Char → Option Nat
  | read, [] => some read
  | read, c :: cs =>
    match value c with
    | none => none
    | some d =>
      if read * b + d.val < bound then parseDigits value bound (read * b + d.val) cs else none

/-- None for no digits and for a lone sign; a minus sign is no digit. -/
def parse (value : Char → Option (Fin b)) (bound : Nat) : List Char → Option Nat
  | [] => none
  | ['+'] => none
  | ['-'] => none
  | '+' :: digits => parseDigits value bound 0 digits
  | digits => parseDigits value bound 0 digits

/-- A number in digits, perhaps behind a plus sign. -/
def Spells (value : Char → Option (Fin b)) (chars : List Char) (n : Nat) : Prop :=
  ∃ digits ds, (chars = digits ∨ chars = '+' :: digits) ∧ digits ≠ [] ∧
    digits.map value = ds.map some ∧ ofDigits 0 ds = n

/-- A printed digit is read as itself, and a sign is no digit. -/
structure Reads (value : Char → Option (Fin b)) : Prop where
  digitChar : ∀ d : Fin b, value (Nat.digitChar d.val) = some d
  plus : value '+' = none
  minus : value '-' = none

/-! ## Reading -/

theorem le_ofDigits (ds : List (Fin b)) : ∀ read, read ≤ ofDigits read ds := by
  induction ds with
  | nil =>
    intro read
    exact Nat.le_refl _
  | cons d ds ih =>
    intro read
    have h := ih (read * b + d.val)
    have hmul : read ≤ read * b := Nat.le_mul_of_pos_right read d.pos
    rw [ofDigits]
    omega

/-- A character that is no digit is not among some. -/
theorem map_cons_ne {c : Char} {cs : List Char} (hc : value c = none) (ds : List (Fin b)) :
    (c :: cs).map value ≠ ds.map some := by
  intro h
  cases ds with
  | nil => cases h
  | cons d ds =>
    rw [List.map_cons, List.map_cons, hc] at h
    cases (List.cons.inj h).1

/-- The first digit is the one that is read first. -/
theorem exists_digits_cons {c : Char} {cs : List Char} {d : Fin b} (hc : value c = some d) :
    (∃ ds, (c :: cs).map value = ds.map some ∧ ofDigits read ds = n) ↔
      ∃ ds, cs.map value = ds.map some ∧ ofDigits (read * b + d.val) ds = n := by
  constructor
  · rintro ⟨ds, hds, hn⟩
    cases ds with
    | nil => cases hds
    | cons d' ds =>
      rw [List.map_cons, List.map_cons, hc] at hds
      obtain ⟨hd, hrest⟩ := List.cons.inj hds
      cases hd
      exact ⟨ds, hrest, hn⟩
  · rintro ⟨ds, hds, hn⟩
    refine ⟨d :: ds, ?_, hn⟩
    rw [List.map_cons, List.map_cons, hc, hds]

/-- The loop overflows only when the whole number does. -/
theorem parseDigits_eq_some_iff {chars : List Char} :
    ∀ {read : Nat}, read < bound → (parseDigits value bound read chars = some n ↔
      n < bound ∧ ∃ ds, chars.map value = ds.map some ∧ ofDigits read ds = n) := by
  induction chars with
  | nil =>
    intro read hread
    rw [parseDigits, Option.some.injEq]
    constructor
    · rintro rfl
      exact ⟨hread, [], rfl, rfl⟩
    · rintro ⟨_, ds, hds, hn⟩
      cases ds with
      | nil => exact hn
      | cons d ds => cases hds
  | cons c cs ih =>
    intro read hread
    rw [parseDigits]
    cases hc : value c with
    | none =>
      simp only [reduceCtorEq, false_iff]
      rintro ⟨_, ds, hds, _⟩
      exact map_cons_ne hc ds hds
    | some d =>
      rw [exists_digits_cons hc]
      simp only
      split
      · rename_i hnext
        exact ih hnext
      · rename_i hover
        simp only [reduceCtorEq, false_iff]
        rintro ⟨hbound, ds, _, rfl⟩
        have hle := le_ofDigits ds (read * b + d.val)
        omega

/-- No digits start with a character that is none. -/
theorem spells_cons_iff {c : Char} {cs : List Char} (hc : value c = none) :
    Spells value (c :: cs) n ↔ c = '+' ∧ cs ≠ [] ∧
      ∃ ds, cs.map value = ds.map some ∧ ofDigits 0 ds = n := by
  constructor
  · rintro ⟨digits, ds, hchars, hne, hds, hn⟩
    rcases hchars with rfl | hplus
    · exact absurd hds (map_cons_ne hc ds)
    · obtain ⟨rfl, rfl⟩ := List.cons.inj hplus
      exact ⟨rfl, hne, ds, hds, hn⟩
  · rintro ⟨rfl, hne, ds, hds, hn⟩
    exact ⟨cs, ds, Or.inr rfl, hne, hds, hn⟩

/-- **What is read is what is spelled, below the bound.** -/
theorem parse_eq_some_iff (hvalue : Reads value) {chars : List Char} (hbound : 0 < bound) :
    parse value bound chars = some n ↔ n < bound ∧ Spells value chars n := by
  unfold parse
  split
  · constructor
    · intro h
      cases h
    · rintro ⟨_, digits, ds, rfl | hplus, hne, _⟩
      · exact absurd rfl hne
      · cases hplus
  · rw [spells_cons_iff hvalue.plus]
    simp
  · rw [spells_cons_iff hvalue.minus]
    simp
  · rename_i digits hsign
    have hne : digits ≠ [] := by
      rintro rfl
      exact hsign rfl
    rw [spells_cons_iff hvalue.plus, parseDigits_eq_some_iff hbound]
    simp only [true_and, ne_eq, hne, not_false_eq_true]
  · rename_i hne _ _ hsign
    rw [parseDigits_eq_some_iff hbound]
    apply and_congr_right
    intro _
    constructor
    · rintro ⟨ds, hds, hn⟩
      exact ⟨chars, ds, Or.inl rfl, hne, hds, hn⟩
    · rintro ⟨digits, ds, rfl | hplus, _, hds, hn⟩
      · exact ⟨ds, hds, hn⟩
      · exact absurd hplus (hsign digits)

/-- Characters that start with a digit are read by the loop. -/
theorem parse_of_digit (hvalue : Reads value) {c : Char} {cs : List Char} {d : Fin b}
    (hc : value c = some d) : parse value bound (c :: cs) = parseDigits value bound 0 (c :: cs) := by
  unfold parse
  split
  · rename_i h
    cases h
  · rename_i h
    cases h
    rw [hvalue.plus] at hc
    cases hc
  · rename_i h
    cases h
    rw [hvalue.minus] at hc
    cases hc
  · rename_i h
    cases h
    rw [hvalue.plus] at hc
    cases hc
  · rfl

/-! ## Printing -/

theorem ofDigits_append (ds' : List (Fin b)) (ds : List (Fin b)) :
    ∀ read, ofDigits read (ds ++ ds') = ofDigits (ofDigits read ds) ds' := by
  induction ds with
  | nil =>
    intro read
    rfl
  | cons d ds ih =>
    intro read
    exact ih (read * b + d.val)

/-- A number is printed with its digits. -/
theorem exists_digits (hb : 1 < b) (n : Nat) : ∃ ds : List (Fin b),
    Nat.toDigits b n = ds.map (fun d => Nat.digitChar d.val) ∧ ofDigits 0 ds = n := by
  induction n using Nat.strong_induction_on with
  | _ n ih =>
    by_cases hlt : n < b
    · refine ⟨[⟨n, hlt⟩], Nat.toDigits_of_lt_base hlt, ?_⟩
      rw [ofDigits, ofDigits, Nat.zero_mul, Nat.zero_add]
    · rw [not_lt] at hlt
      have hdiv : n / b < n := Nat.div_lt_self (by omega) hb
      obtain ⟨ds, hds, hn⟩ := ih (n / b) hdiv
      refine ⟨ds ++ [⟨n % b, Nat.mod_lt n (by omega)⟩], ?_, ?_⟩
      · rw [Nat.toDigits_of_base_le hb hlt, hds, List.map_append]
        rfl
      · rw [ofDigits_append, hn]
        exact Nat.div_add_mod' n b

/-- No number but zero is printed with a zero in front. -/
theorem head_toDigits (hb : 1 < b) (hn : 0 < n) : (Nat.toDigits b n).head? ≠ some '0' := by
  induction n using Nat.strong_induction_on with
  | _ n ih =>
    by_cases hlt : n < b
    · rw [Nat.toDigits_of_lt_base hlt, List.head?_cons, Ne, Option.some.injEq,
        Nat.digitChar_eq_zero]
      omega
    · rw [not_lt] at hlt
      rw [Nat.toDigits_of_base_le hb hlt, List.head?_append_of_ne_nil _ Nat.toDigits_ne_nil]
      exact ih (n / b) (Nat.div_lt_self hn hb) (Nat.div_pos hlt (by omega))

/-- Digits behind a number that is not zero are printed behind it. -/
theorem toDigits_append (hb : 1 < b) (ds : List (Fin b)) : ∀ {read : Nat}, 0 < read →
    Nat.toDigits b read ++ ds.map (fun d => Nat.digitChar d.val) =
      Nat.toDigits b (ofDigits read ds) := by
  induction ds with
  | nil =>
    intro read _
    rw [List.map_nil, List.append_nil, ofDigits]
  | cons d ds ih =>
    intro read hread
    have hnext : 0 < b * read + d.val := by
      have hmul : 0 < b * read := Nat.mul_pos (by omega) hread
      omega
    have hdigit := Nat.toDigits_append_toDigits hb hread d.isLt
    rw [Nat.toDigits_of_lt_base d.isLt] at hdigit
    calc Nat.toDigits b read ++ (d :: ds).map (fun d => Nat.digitChar d.val)
        = (Nat.toDigits b read ++ [Nat.digitChar d.val]) ++
            ds.map (fun d => Nat.digitChar d.val) := by
          rw [List.map_cons, List.append_assoc, List.singleton_append]
      _ = Nat.toDigits b (b * read + d.val) ++ ds.map (fun d => Nat.digitChar d.val) := by
          rw [hdigit]
      _ = Nat.toDigits b (ofDigits read (d :: ds)) := by
          rw [ih hnext, ofDigits, Nat.mul_comm]

/-- **Digits that do not start with a zero are the ones their number is printed with.** -/
theorem toDigits_ofDigits (hb : 1 < b) {d : Fin b} {ds : List (Fin b)} (hd : 0 < d.val) :
    Nat.toDigits b (ofDigits 0 (d :: ds)) = (d :: ds).map (fun d => Nat.digitChar d.val) := by
  rw [ofDigits, Nat.zero_mul, Nat.zero_add, ← toDigits_append hb ds hd,
    Nat.toDigits_of_lt_base d.isLt]
  rfl

/-- Without the zeros in front, and with one digit at least, digits are printed as their number. -/
theorem toDigits_dropWhile (hb : 1 < b) (ds : List (Fin b)) :
    (if ((ds.map fun d => Nat.digitChar d.val).dropWhile (· = '0')).isEmpty then ['0']
      else (ds.map fun d => Nat.digitChar d.val).dropWhile (· = '0')) =
      Nat.toDigits b (ofDigits 0 ds) := by
  induction ds with
  | nil =>
    rw [ofDigits, Nat.toDigits_zero]
    rfl
  | cons d ds ih =>
    by_cases hd : d.val = 0
    · have hchar : Nat.digitChar d.val = '0' := Nat.digitChar_eq_zero.2 hd
      simp only [List.map_cons, List.dropWhile_cons, hchar, decide_true, if_true, ih]
      rw [ofDigits, hd, Nat.zero_mul]
    · have hchar : ¬ Nat.digitChar d.val = '0' := fun h => hd (Nat.digitChar_eq_zero.1 h)
      rw [toDigits_ofDigits hb (Nat.pos_of_ne_zero hd)]
      simp only [List.map_cons, List.dropWhile_cons, hchar, decide_false, Bool.false_eq_true,
        if_false, List.isEmpty_cons]

/-- **What is printed is read back**, below the bound. -/
theorem parse_toDigits (hb : 1 < b) (hvalue : Reads value) (h : n < bound) :
    parse value bound (Nat.toDigits b n) = some n := by
  obtain ⟨ds, hds, hn⟩ := exists_digits hb n
  have hread : (Nat.toDigits b n).map value = ds.map some := by
    rw [hds, List.map_map]
    exact List.map_congr_left fun d _ => hvalue.digitChar d
  have hloop : parseDigits value bound 0 (Nat.toDigits b n) = some n :=
    (parseDigits_eq_some_iff (by omega)).2 ⟨h, ds, hread, hn⟩
  cases ds with
  | nil => exact absurd hds Nat.toDigits_ne_nil
  | cons d ds =>
    rw [hds, List.map_cons] at hloop ⊢
    rw [parse_of_digit hvalue (hvalue.digitChar d)]
    exact hloop

end Radix
