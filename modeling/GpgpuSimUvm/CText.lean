-- Text files as the C library reads and writes them: lines into a buffer, tokens between
-- blanks, decimal and hexadecimal numbers. What is printed is read back.
import Mathlib.Data.List.Basic
import Mathlib.Tactic

namespace c_text

/-! ## Lines and tokens -/

/-- The lines that `fgets` gives with room for so many characters, one call after the other.
A line ends with its newline, or where the room ends. -/
def linesFrom (size : Nat) : Nat → List Char → List Char → List (List Char)
  | _, line, [] => if line = [] then [] else [line]
  | room, line, c :: cs =>
    if c = '\n' ∨ room ≤ 1 then (line ++ [c]) :: linesFrom size size [] cs
    else linesFrom size (room - 1) (line ++ [c]) cs

def lines (size : Nat) (text : List Char) : List (List Char) := linesFrom size size [] text

/-- The tokens that `strtok` finds between blanks. -/
def tokensFrom : List Char → List Char → List (List Char)
  | token, [] => if token = [] then [] else [token]
  | token, c :: cs =>
    if c = ' ' then (if token = [] then [] else [token]) ++ tokensFrom [] cs
    else tokensFrom (token ++ [c]) cs

def tokens (line : List Char) : List (List Char) := tokensFrom [] line

theorem linesFrom_append {size room : Nat} {line l text : List Char} (hl : ∀ c ∈ l, c ≠ '\n')
    (hroom : l.length < room) :
    linesFrom size room line (l ++ '\n' :: text) = (line ++ l ++ ['\n']) :: lines size text := by
  induction l generalizing room line with
  | nil =>
    rw [List.nil_append, linesFrom, if_pos (Or.inl rfl), List.append_nil]
    rfl
  | cons c l ih =>
    have hc : ¬ (c = '\n' ∨ room ≤ 1) := by
      rintro (hc | hle)
      · exact hl c (List.mem_cons_self ..) hc
      · rw [List.length_cons] at hroom
        omega
    rw [List.length_cons] at hroom
    rw [List.cons_append, linesFrom, if_neg hc,
      ih (fun d hd => hl d (List.mem_cons_of_mem _ hd)) (by omega)]
    simp

/-- A line that fits is read as a whole. -/
theorem lines_append {size : Nat} {l : List Char} (hl : ∀ c ∈ l, c ≠ '\n') (hsize : l.length < size)
    (text : List Char) : lines size (l ++ '\n' :: text) = (l ++ ['\n']) :: lines size text :=
  linesFrom_append hl hsize

theorem tokensFrom_append {token w rest : List Char} (hw : ∀ c ∈ w, c ≠ ' ') :
    tokensFrom token (w ++ rest) = tokensFrom (token ++ w) rest := by
  induction w generalizing token with
  | nil => rw [List.nil_append, List.append_nil]
  | cons c w ih =>
    rw [List.cons_append, tokensFrom, if_neg (hw c (List.mem_cons_self ..)),
      ih fun d hd => hw d (List.mem_cons_of_mem _ hd), List.append_assoc, List.singleton_append]

/-- The first token of a line. -/
theorem tokens_append {w : List Char} (hne : w ≠ []) (hw : ∀ c ∈ w, c ≠ ' ') (rest : List Char) :
    tokens (w ++ ' ' :: rest) = w :: tokens rest := by
  rw [tokens, tokensFrom_append hw, List.nil_append, tokensFrom, if_pos rfl, if_neg hne]
  rfl

/-- The only token of a line. -/
theorem tokens_single {w : List Char} (hne : w ≠ []) (hw : ∀ c ∈ w, c ≠ ' ') :
    tokens w = [w] := by
  have happend : tokensFrom [] (w ++ []) = tokensFrom ([] ++ w) [] := tokensFrom_append hw
  rw [List.append_nil, List.nil_append, tokensFrom, if_neg hne] at happend
  exact happend

/-! ## Decimal numbers -/

/-- `%d` and `%lld` -/
def printInt (v : Int) : List Char :=
  if v < 0 then '-' :: Nat.toDigits 10 v.natAbs else Nat.toDigits 10 v.natAbs

/-- The digits in front. -/
def readNat (cs : List Char) : Nat := Nat.ofDigitChars 10 (cs.takeWhile Char.isDigit) 0

/-- `strtol` of a token, which has no blank in front. -/
def readInt : List Char → Int
  | '-' :: cs => -(readNat cs : Int)
  | '+' :: cs => (readNat cs : Int)
  | cs => (readNat cs : Int)

theorem isDigit_of_toDigits {n : Nat} {c : Char} (h : c ∈ Nat.toDigits 10 n) :
    c.isDigit = true := Nat.isDigit_of_mem_toDigits (by decide) (by decide) h

theorem readNat_toDigits {n : Nat} {rest : List Char}
    (hrest : ∀ c ∈ rest.head?, c.isDigit = false) :
    readNat (Nat.toDigits 10 n ++ rest) = n := by
  have htake : (Nat.toDigits 10 n ++ rest).takeWhile Char.isDigit = Nat.toDigits 10 n := by
    rw [List.takeWhile_append_of_pos fun c hc => isDigit_of_toDigits hc]
    cases rest with
    | nil => simp
    | cons c rest => rw [List.takeWhile_cons_of_neg (by simp [hrest c rfl]), List.append_nil]
  rw [readNat, htake, Nat.ofDigitChars_ten_toDigits]

theorem readInt_of_digit {c : Char} {cs : List Char} (hc : c.isDigit = true) :
    readInt (c :: cs) = (readNat (c :: cs) : Int) := by
  unfold readInt
  split
  · rename_i heq
    rw [(List.cons.inj heq).1] at hc
    cases hc
  · rename_i heq
    rw [(List.cons.inj heq).1] at hc
    cases hc
  · rfl

/-- A printed number is read back. -/
theorem readInt_printInt (v : Int) {rest : List Char}
    (hrest : ∀ c ∈ rest.head?, c.isDigit = false) : readInt (printInt v ++ rest) = v := by
  rw [printInt]
  split_ifs with hneg
  · rw [List.cons_append, readInt, readNat_toDigits hrest]
    omega
  · obtain ⟨d, ds, hds⟩ := List.exists_cons_of_ne_nil (Nat.toDigits_ne_nil (n := v.natAbs) (b := 10))
    have hd : d.isDigit = true := isDigit_of_toDigits (n := v.natAbs) (by simp [hds])
    have hread := readNat_toDigits (n := v.natAbs) hrest
    rw [hds, List.cons_append] at hread ⊢
    rw [readInt_of_digit hd, hread]
    omega

theorem printInt_ne_nil (v : Int) : printInt v ≠ [] := by
  rw [printInt]
  split_ifs
  · exact List.cons_ne_nil _ _
  · exact Nat.toDigits_ne_nil

/-- The characters of a number. -/
theorem mem_printInt {v : Int} {c : Char} (h : c ∈ printInt v) : c = '-' ∨ c.isDigit = true := by
  rw [printInt] at h
  split_ifs at h
  · rcases List.mem_cons.mp h with rfl | h
    · exact Or.inl rfl
    · exact Or.inr (isDigit_of_toDigits h)
  · exact Or.inr (isDigit_of_toDigits h)

theorem printInt_no_blank {v : Int} : ∀ c ∈ printInt v, c ≠ ' ' := by
  intro c hc
  rcases mem_printInt hc with rfl | hdigit
  · decide
  · rintro rfl
    cases hdigit

theorem printInt_no_newline {v : Int} : ∀ c ∈ printInt v, c ≠ '\n' := by
  intro c hc
  rcases mem_printInt hc with rfl | hdigit
  · decide
  · rintro rfl
    cases hdigit

theorem length_printInt_le {v : Int} {k : Nat} (hk : 0 < k) (h : v.natAbs < 10 ^ k) :
    (printInt v).length ≤ k + 1 := by
  have hdigits := (Nat.length_toDigits_le_iff (b := 10) (by decide) hk).mpr h
  rw [printInt]
  split_ifs
  · rw [List.length_cons]
    omega
  · omega

/-! ## Hexadecimal numbers -/

def hexChar (d : Nat) : Char := Nat.digitChar d

def hexVal (c : Char) : Option Nat :=
  if c.isDigit then some (c.toNat - '0'.toNat)
  else if 'a' ≤ c ∧ c ≤ 'f' then some (c.toNat - 'a'.toNat + 10)
  else if 'A' ≤ c ∧ c ≤ 'F' then some (c.toNat - 'A'.toNat + 10)
  else none

/-- `%08x` of 32 bits: the digit of each four bits, the highest first. -/
def printHex (x : Nat) : List Char :=
  [hexChar (x / 16 ^ 7 % 16), hexChar (x / 16 ^ 6 % 16), hexChar (x / 16 ^ 5 % 16),
    hexChar (x / 16 ^ 4 % 16), hexChar (x / 16 ^ 3 % 16), hexChar (x / 16 ^ 2 % 16),
    hexChar (x / 16 % 16), hexChar (x % 16)]

/-- `ss >> std::hex >> x`, from the digits in front. -/
def readHex : Nat → List Char → Nat
  | x, [] => x
  | x, c :: cs =>
    match hexVal c with
    | some d => readHex (16 * x + d) cs
    | none => x

theorem hexVal_hexChar : ∀ d < 16, hexVal (hexChar d) = some d := by decide

theorem hexChar_plain : ∀ d < 16, hexChar d ≠ ' ' ∧ hexChar d ≠ '\n' ∧
    hexChar d ≠ 'g' ∧ hexChar d ≠ 's' ∧ hexChar d ≠ 'l' := by
  decide

theorem readHex_cons {d : Nat} (hd : d < 16) (x : Nat) (cs : List Char) :
    readHex x (hexChar d :: cs) = readHex (16 * x + d) cs := by
  simp only [readHex, hexVal_hexChar d hd]

theorem readHex_stop {x : Nat} {rest : List Char} (h : ∀ c ∈ rest.head?, hexVal c = none) :
    readHex x rest = x := by
  cases rest with
  | nil => rfl
  | cons c cs => simp only [readHex, h c rfl]

/-- A printed word is read back. -/
theorem readHex_printHex {x : Nat} (hx : x < 2 ^ 32) {rest : List Char}
    (hrest : ∀ c ∈ rest.head?, hexVal c = none) : readHex 0 (printHex x ++ rest) = x := by
  have hmod : ∀ y : Nat, y % 16 < 16 := fun y => Nat.mod_lt y (by decide)
  simp only [printHex, List.cons_append, List.nil_append, readHex_cons (hmod _)]
  rw [readHex_stop hrest]
  omega

theorem mem_printHex {x : Nat} {c : Char} (h : c ∈ printHex x) :
    c ≠ ' ' ∧ c ≠ '\n' ∧ c ≠ 'g' ∧ c ≠ 's' ∧ c ≠ 'l' := by
  have hmod : ∀ y : Nat, y % 16 < 16 := fun y => Nat.mod_lt y (by decide)
  simp only [printHex, List.mem_cons, List.not_mem_nil, or_false] at h
  rcases h with rfl | rfl | rfl | rfl | rfl | rfl | rfl | rfl <;> exact hexChar_plain _ (hmod _)

theorem length_printHex (x : Nat) : (printHex x).length = 8 := rfl

end c_text
